import ParseEmbedded.Library.HttpText
import ParseEmbedded.Rtos.Request

/-!
# Reading a request back

What a server reads that ends its lines at a carriage return and a line feed, and splits the first
line at its blanks. `request_read_iff` says for which requests that is the verb, the path, the
query, the fields and the body that the caller has given: the parts are written as they are, so it
depends on the caller alone.
-/

set_option autoImplicit false

namespace ParseEmbedded.Rtos

open HttpText

/-- The symbols of HTTP. -/
def http : Symbols Byte where
  carriageReturn := Byte.carriageReturn
  lineFeed := Byte.lineFeed
  blank := Byte.space
  colon := Byte.colon
  questionMark := 63

theorem http_distinct : http.Distinct := ⟨by decide, by decide, by decide⟩

/-! ## The request that is meant -/

def sentFields (headers : List (String × List Byte)) : List (HttpText.Field Byte) :=
  (headers.filter fun header => header.2 ≠ []).map fun header => ⟨ascii header.1, header.2⟩

/-- The request with the parts that the caller has given. -/
def sentRequest (client : Client) (host httpVerb : CString) (httpRequestBody : Option CString)
    (addInstallationHeader : Bool) : HttpText.Request Byte where
  verb := httpVerb.bytes
  path := host.bytes
  query := requestQuery httpVerb httpRequestBody
  version := ascii "HTTP/1.1"
  fields := sentFields
    (requestHeaders client addInstallationHeader (requestBody httpVerb httpRequestBody))
  body := requestBody httpVerb httpRequestBody

theorem sentFields_cons (header : String × List Byte) (headers : List (String × List Byte)) :
    sentFields (header :: headers) =
      if header.2 = [] then sentFields headers
      else ⟨ascii header.1, header.2⟩ :: sentFields headers := by
  by_cases empty : header.2 = []
  · simp [sentFields, empty]
  · simp [sentFields, empty]

theorem headerLines_fieldsText (body : List Byte) (headers : List (String × List Byte)) :
    headerLines headers ++ ascii "\r\n" ++ body = http.fieldsText body (sentFields headers) := by
  induction headers with
  | nil => rfl
  | cons header headers ih =>
      rw [headerLines, List.flatMap_cons, List.append_assoc, List.append_assoc,
        ← List.append_assoc (List.flatMap _ headers)]
      change headerLine header.1 header.2 ++ (headerLines headers ++ ascii "\r\n" ++ body) = _
      rw [ih, headerLine, sentFields_cons]
      by_cases empty : header.2 = []
      · rw [if_pos empty, if_pos empty]
        rfl
      · rw [if_neg empty, if_neg empty, Symbols.fieldsText, Symbols.line, Symbols.fieldText]
        simp only [List.append_assoc, List.cons_append]
        rfl

/-- What is built is the text of the request that is meant. -/
theorem requestText_eq (client : Client) (host httpVerb : CString)
    (httpRequestBody : Option CString) (addInstallationHeader : Bool) :
    requestText client host httpVerb httpRequestBody addInstallationHeader =
      http.text (sentRequest client host httpVerb httpRequestBody addInstallationHeader) := by
  rw [requestText, requestHead, List.append_assoc, List.append_assoc,
    ← List.append_assoc (headerLines _), headerLines_fieldsText, requestLine, Symbols.text,
    Symbols.line, Symbols.target]
  simp only [List.append_assoc, List.cons_append]
  rfl

/-! ## Which requests are read as they are meant -/

/-- The text has no end of a line in it. -/
abbrev OneLine (text : List Byte) : Prop := http.OneLine text

theorem oneLine_append_cons {m : Byte} (notReturn : m ≠ Byte.carriageReturn)
    (notFeed : m ≠ Byte.lineFeed) (front rest : List Byte) :
    OneLine (front ++ m :: rest) ↔ OneLine front ∧ OneLine rest := by
  exact (not_congr (pair_infix_append_cons notReturn notFeed front rest)).trans not_or

theorem oneLine_nil : OneLine [] := by
  simp [OneLine, Symbols.OneLine]

/-- No part that the caller gives ends the part that it stands in. -/
structure CleanParts (host httpVerb : CString) (query : List Byte)
    (headers : List (String × List Byte)) : Prop where
  verb : Byte.space ∉ httpVerb.bytes ∧ OneLine httpVerb.bytes
  path : Byte.space ∉ host.bytes ∧ 63 ∉ host.bytes ∧ OneLine host.bytes
  query : Byte.space ∉ query ∧ OneLine query
  values : ∀ header ∈ headers, OneLine header.2

/-- The names of the headers. -/
def headerNames : List String :=
  ["Host", "User-Agent", "X-Parse-OS-Version", "X-Parse-Client-Version",
    "X-Parse-Application-Id", "X-Parse-Client-Key", "X-Parse-Installation-Id",
    "X-Parse-Session-Token", "Content-Type", "Content-Length"]

theorem requestHeaders_names (client : Client) (addInstallationHeader : Bool) (body : List Byte) :
    (requestHeaders client addInstallationHeader body).map Prod.fst ⊆ headerNames := by
  rw [requestHeaders, List.map_append, List.map_append]
  refine List.append_subset.mpr ⟨List.append_subset.mpr ⟨?_, ?_⟩, ?_⟩
  · change headerNames.take 6 ⊆ headerNames
    decide
  · cases addInstallationHeader with
    | true =>
        change (headerNames.drop 6).take 2 ⊆ headerNames
        decide
    | false => exact List.nil_subset _
  · by_cases empty : body = []
    · rw [if_pos empty]
      exact List.nil_subset _
    · rw [if_neg empty]
      change headerNames.drop 8 ⊆ headerNames
      decide

theorem headerNames_clean : ∀ name ∈ headerNames,
    Byte.carriageReturn ∉ ascii name ∧ Byte.colon ∉ ascii name := by
  decide

theorem cleanField_iff {name : String} (isName : name ∈ headerNames) (value : List Byte) :
    http.CleanField ⟨ascii name, value⟩ ↔ OneLine value := by
  obtain ⟨noReturn, noColon⟩ := headerNames_clean name isName
  have line : OneLine (http.fieldText ⟨ascii name, value⟩) ↔ OneLine value := by
    change OneLine (ascii name ++ Byte.colon :: ([] ++ Byte.space :: value)) ↔ _
    rw [oneLine_append_cons (by decide) (by decide), oneLine_append_cons (by decide) (by decide)]
    exact ⟨fun all => all.2.2, fun clean => ⟨pair_not_within noReturn, oneLine_nil, clean⟩⟩
  exact ⟨fun clean => line.mp clean.oneLine,
    fun clean => ⟨line.mpr clean, pair_not_within noColon⟩⟩

theorem oneLine_target (path query : List Byte) :
    OneLine (http.target path query) ↔ OneLine path ∧ OneLine query := by
  rw [Symbols.target]
  by_cases none : query = []
  · rw [if_pos none, List.append_nil, none]
    exact (and_iff_left oneLine_nil).symm
  · rw [if_neg none]
    exact oneLine_append_cons (by decide) (by decide) path query

theorem clean_iff (client : Client) (host httpVerb : CString) (httpRequestBody : Option CString)
    (addInstallationHeader : Bool) :
    http.Clean (sentRequest client host httpVerb httpRequestBody addInstallationHeader) ↔
      CleanParts host httpVerb (requestQuery httpVerb httpRequestBody)
        (requestHeaders client addInstallationHeader
          (requestBody httpVerb httpRequestBody)) := by
  have names := requestHeaders_names client addInstallationHeader
    (requestBody httpVerb httpRequestBody)
  have start : OneLine (httpVerb.bytes ++ Byte.space ::
      (http.target host.bytes (requestQuery httpVerb httpRequestBody) ++
        Byte.space :: ascii "HTTP/1.1")) ↔
      OneLine httpVerb.bytes ∧ OneLine host.bytes ∧
        OneLine (requestQuery httpVerb httpRequestBody) := by
    have version : OneLine (ascii "HTTP/1.1") := pair_not_within (by decide)
    rw [oneLine_append_cons (by decide) (by decide), oneLine_append_cons (by decide) (by decide),
      oneLine_target, and_iff_left version]
  constructor
  · intro clean
    obtain ⟨verb, path, query⟩ := start.mp clean.oneLine
    refine ⟨⟨clean.verb, verb⟩, ⟨clean.path.1, clean.path.2, path⟩, ⟨clean.query, query⟩, ?_⟩
    intro header member
    by_cases empty : header.2 = []
    · exact empty ▸ oneLine_nil
    · have isName := names (List.mem_map_of_mem member)
      refine (cleanField_iff isName header.2).mp (clean.fields _ ?_)
      exact List.mem_map_of_mem (List.mem_filter.mpr ⟨member, by simpa using empty⟩)
  · rintro ⟨⟨verbBlank, verb⟩, ⟨pathBlank, pathQuestion, path⟩, ⟨queryBlank, query⟩, values⟩
    refine ⟨start.mpr ⟨verb, path, query⟩, verbBlank, ⟨pathBlank, pathQuestion⟩, queryBlank, ?_⟩
    intro f member
    obtain ⟨header, inHeaders, rfl⟩ := List.mem_map.mp member
    have isHeader := (List.mem_filter.mp inHeaders).1
    exact (cleanField_iff (names (List.mem_map_of_mem isHeader)) header.2).mpr
      (values header isHeader)

/-! ## The buffer -/

/-- A request that fits is in the buffer as a whole. -/
theorem buildRequestHeaders_fits (libc : Libc) (client : Client) (host httpVerb : CString)
    (httpRequestBody : Option CString) (addInstallationHeader : Bool)
    (fits : (requestText client host httpVerb httpRequestBody addInstallationHeader).length ≤
      1022) :
    let built :=
      buildRequestHeaders libc client host httpVerb httpRequestBody addInstallationHeader
    0 ≤ built.2 ∧ built.1.dataBuffer.cells.take built.2.toNat =
      requestText client host httpVerb httpRequestBody addInstallationHeader := by
  obtain ⟨head, builds, same⟩ :=
    buildHead_builds libc client host httpVerb httpRequestBody addInstallationHeader
  have lengths : (requestText client host httpVerb httpRequestBody addInstallationHeader).length =
      (requestHead client host httpVerb httpRequestBody addInstallationHeader).length + 2 +
        (requestBody httpVerb httpRequestBody).length := by
    rw [requestText, List.length_append, List.length_append]
    rfl
  obtain rfl := same (by omega)
  obtain ⟨-, holds⟩ | ⟨long, -⟩ := builds
  swap
  · omega
  have blank := holds.print_fits libc (show _ + (ascii "\r\n").length ≤ 1022 by
    change _ + 2 ≤ 1022
    omega)
  have whole : (buildRest libc httpVerb httpRequestBody
      (buildHead libc client host httpVerb httpRequestBody addInstallationHeader)).Holds
      (requestText client host httpVerb httpRequestBody addInstallationHeader) := by
    rw [buildRest, requestText]
    by_cases bodyless : isGetRequest httpVerb ∨ bytesOf httpRequestBody = []
    · rw [if_pos bodyless, requestBody_bodyless bodyless, List.append_nil]
      exact blank
    · have body : requestBody httpVerb httpRequestBody = bytesOf httpRequestBody :=
        if_neg (not_or.mp bodyless).1
      rw [if_neg bodyless, body]
      refine blank.print_fits libc ?_
      rw [List.length_append, ← body]
      change _ + 2 + _ ≤ 1022
      omega
  have result := Building.finish_result whole.status
  rw [whole.reached, toInt_of_small (by omega) (by omega)] at result
  change (buildRequestHeaders libc client host httpVerb httpRequestBody
    addInstallationHeader).2 = _ at result
  have request := whole.finish
  change BuildsRequest _ (buildRequestHeaders libc client host httpVerb httpRequestBody
    addInstallationHeader) at request
  rcases request with negative | ⟨-, -, stored⟩
  · omega
  · exact ⟨by omega, stored⟩

/-- **When a server reads the request that is meant.** For a request that fits the buffer, what has
been built in the buffer is read back as the verb, the path, the query, the headers with a value
and the body that the caller has given, if and only if no blank stands in the verb, the path or the
query, no question mark in the path, and no end of a line in any of them or in a value. -/
theorem request_read_iff (libc : Libc) (client : Client) (host httpVerb : CString)
    (httpRequestBody : Option CString) (addInstallationHeader : Bool)
    (fits : (requestText client host httpVerb httpRequestBody addInstallationHeader).length ≤
      1022) :
    let built :=
      buildRequestHeaders libc client host httpVerb httpRequestBody addInstallationHeader
    http.read (built.1.dataBuffer.cells.take built.2.toNat) =
        some (sentRequest client host httpVerb httpRequestBody addInstallationHeader) ↔
      CleanParts host httpVerb (requestQuery httpVerb httpRequestBody)
        (requestHeaders client addInstallationHeader
          (requestBody httpVerb httpRequestBody)) := by
  have built := (buildRequestHeaders_fits libc client host httpVerb httpRequestBody
    addInstallationHeader fits).2
  dsimp only at built ⊢
  rw [built, requestText_eq, Symbols.read_text_iff http_distinct, clean_iff]

/-- A query that is read back. -/
theorem request_read_query :
    http.read (requestText (exampleClient (CString.literal "app") (CString.literal "id")
        (CString.literal "token")) (CString.literal "/1/classes/Led") (CString.literal "GET")
        (some (CString.literal "where=on")) false) =
      some (sentRequest (exampleClient (CString.literal "app") (CString.literal "id")
        (CString.literal "token")) (CString.literal "/1/classes/Led") (CString.literal "GET")
        (some (CString.literal "where=on")) false) := by
  have fits : (requestText (exampleClient (CString.literal "app") (CString.literal "id")
      (CString.literal "token")) (CString.literal "/1/classes/Led") (CString.literal "GET")
      (some (CString.literal "where=on")) false).length ≤ 1022 := by
    decide +kernel
  have clean : CleanParts (CString.literal "/1/classes/Led") (CString.literal "GET")
      (requestQuery (CString.literal "GET") (some (CString.literal "where=on")))
      (requestHeaders (exampleClient (CString.literal "app") (CString.literal "id")
        (CString.literal "token")) false
        (requestBody (CString.literal "GET") (some (CString.literal "where=on")))) :=
    ⟨by decide, by decide, by decide, by decide +kernel⟩
  have read := (request_read_iff ⟨false⟩ _ _ _ _ _ fits).mpr clean
  rwa [(buildRequestHeaders_fits ⟨false⟩ _ _ _ _ _ fits).2] at read

end ParseEmbedded.Rtos
