import Mathlib.Data.Finset.SDiff
import Mathlib.Data.Finset.Lattice.Lemmas
import ParseEmbedded.Library.Handles
import ParseEmbedded.Library.Runs
import ParseEmbedded.Unix.Session

/-!
# The easy handles and header lists of libcurl on Unix

What the functions of `parse.c` do with the handles of `curl_easy_init` and with the lists of
`curl_slist_append`. `parseSendRequestInternal` cleans up behind a transfer that succeeds, and
`parseStopPushService` the connection of the push service; every other way out leaves behind what
was opened.

A callback of the application may call the API again, during the transfer of its request or when
the request is given up; the callback of `parseSetSessionToken` does so. `Calls` is what a
callback calls, and a `CurlAction` is what a function makes of the handles. Easy handles are
numbered in the order in which they are made.

`Leaves` is what an action leaves behind, with one lemma for each way to build an action, and
`curl_handles_iff` says when a run of calls leaves no handle but the one of the push service.
-/

set_option autoImplicit false

namespace ParseEmbedded.Unix

open SimpleJson Push Handles Runs

/-! ## Requests and what they open -/

/-- What a request meets, with the result of each `curl_slist_append`. The result of setting the
header list is looked up under the whole list, whatever the appends have left of it. -/
structure Easy extends Libcurl where
  append : Nat → Bool

/-- A request with all that it depends on. -/
structure Asked where
  client : Client
  httpVerb : CString
  httpPath : CString
  requestBody : Option CString
  useInstallationIdHeader : Bool
  curl : Easy

/-- An easy handle, or a header list of the request with this handle, named by its first line. -/
inductive Resource where
  | easy (number : Nat)
  | headers (number line : Nat)
  deriving DecidableEq

def Resource.number : Resource → Nat
  | .easy number => number
  | .headers number _ => number

/-- `headers` behind so many calls of `curl_slist_append`, and the lists begun. A call that fails
returns `NULL`, which takes the place of the list. -/
def appendHeaders (append : Nat → Bool) : Nat → Option Nat × List Nat
  | 0 => (none, [])
  | lines + 1 =>
      let built := appendHeaders append lines
      if append lines then
        match built.1 with
        | some first => (some first, built.2)
        | none => (some lines, built.2 ++ [lines])
      else (none, built.2)

namespace Asked

variable (word : WordSize) (asked : Asked)

/-- What the request does. -/
def request : Request :=
  parseSendRequestInternal word asked.client asked.httpVerb asked.httpPath asked.requestBody
    asked.useInstallationIdHeader asked.curl.toLibcurl

/-- Its header list, and the lists that it has begun. -/
def headers : Option Nat × List Nat :=
  appendHeaders asked.curl.append
    (buildHeaders asked.client asked.useInstallationIdHeader).length

/-- What a call of libcurl opens. The list is built in front of the call that sets it. -/
def opening (number : Nat) : CurlCall → List Resource
  | .init => if asked.curl.init then [.easy number] else []
  | .setopt (.httpHeader _) => asked.headers.2.map (.headers number)
  | _ => []

/-- What a call of libcurl closes. -/
def closing (number : Nat) : CurlCall → List Resource
  | .cleanup => [.easy number]
  | .freeHeaders => asked.headers.1.toList.map (.headers number)
  | _ => []

def opens (number : Nat) : List Resource :=
  (asked.request word).curlCalls.flatMap (asked.opening number)

def closes (number : Nat) : List Resource :=
  (asked.request word).curlCalls.flatMap (asked.closing number)

/-- The request gets no handle, or it gets through its transfer, and no `curl_slist_append` fails
behind one that has not failed. -/
def Passes : Prop :=
  asked.curl.init = true →
    asked.curl.Performs (requestSettings asked.httpVerb asked.requestBody)
        (transferSettings word asked.client asked.httpVerb asked.httpPath asked.requestBody
          asked.useInstallationIdHeader asked.curl.seconds) ∧
      asked.curl.transfer.result = CURLE_OK ∧
      ∀ line < (buildHeaders asked.client asked.useInstallationIdHeader).length,
        asked.curl.append line = false → ∀ earlier < line, asked.curl.append earlier = false

end Asked

/-! ### The lists -/

section Lists

variable {append : Nat → Bool} {lines : Nat}

theorem appendHeaders_fails (fails : append lines = false) :
    appendHeaders append (lines + 1) = (none, (appendHeaders append lines).2) := by
  rw [appendHeaders, fails]
  rfl

theorem appendHeaders_goesOn {first : Nat} (goesOn : append lines = true)
    (headers : (appendHeaders append lines).1 = some first) :
    appendHeaders append (lines + 1) = appendHeaders append lines := by
  rw [appendHeaders, if_pos goesOn, headers]
  exact Prod.ext headers.symm rfl

theorem appendHeaders_begins (begins : append lines = true)
    (headers : (appendHeaders append lines).1 = none) :
    appendHeaders append (lines + 1) = (some lines, (appendHeaders append lines).2 ++ [lines]) := by
  rw [appendHeaders, if_pos begins, headers]

/-- The list at hand is one of those begun, and those begun start in front of the next line. -/
theorem appendHeaders_begun (lines : Nat) :
    (∀ first ∈ (appendHeaders append lines).1, first ∈ (appendHeaders append lines).2) ∧
      ∀ first ∈ (appendHeaders append lines).2, first < lines := by
  induction lines with
  | zero => exact ⟨fun _ never => absurd never (Option.not_mem_none _),
      fun _ never => absurd never List.not_mem_nil⟩
  | succ lines ih =>
      obtain ⟨among, before⟩ := ih
      have earlier : ∀ first ∈ (appendHeaders append lines).2, first < lines + 1 :=
        fun first begun => Nat.lt_succ_of_lt (before first begun)
      cases result : append lines with
      | false =>
          rw [appendHeaders_fails result]
          exact ⟨fun _ never => absurd never (Option.not_mem_none _), earlier⟩
      | true =>
          cases headers : (appendHeaders append lines).1 with
          | some first =>
              rw [appendHeaders_goesOn result headers]
              exact ⟨among, earlier⟩
          | none =>
              rw [appendHeaders_begins result headers]
              refine ⟨fun first same => ?_, List.forall_mem_append.mpr ⟨earlier,
                List.forall_mem_singleton.mpr (Nat.lt_succ_self lines)⟩⟩
              rw [← Option.mem_some.mp same]
              exact List.mem_append_right _ (List.mem_singleton_self lines)

/-- Where no list is left, none may have been begun. -/
theorem appendHeaders_none_iff (lines : Nat) :
    (∀ first ∈ (appendHeaders append lines).2, first ∈ (none : Option Nat)) ↔
      ∀ line < lines, append line = false := by
  induction lines with
  | zero =>
      refine iff_of_true (fun _ never => absurd never List.not_mem_nil) fun _ never => ?_
      exact absurd never (Nat.not_lt_zero _)
  | succ lines ih =>
      rw [Nat.forall_lt_succ_right]
      cases result : append lines with
      | false =>
          rw [appendHeaders_fails result, and_iff_left rfl]
          exact ih
      | true =>
          refine iff_of_false (fun lost => ?_) (fun all => absurd all.2 (by simp))
          cases headers : (appendHeaders append lines).1 with
          | some first =>
              rw [appendHeaders_goesOn result headers] at lost
              have begun := (appendHeaders_begun lines).1 first headers
              exact Option.not_mem_none _ (lost first begun)
          | none =>
              rw [appendHeaders_begins result headers] at lost
              have begun := List.mem_append_right (appendHeaders append lines).2
                (List.mem_singleton_self lines)
              exact Option.not_mem_none _ (lost lines begun)

/-- No list is lost exactly if no append fails behind one that has not failed. -/
theorem appendHeaders_kept_iff (lines : Nat) :
    (∀ first ∈ (appendHeaders append lines).2, first ∈ (appendHeaders append lines).1) ↔
      ∀ line < lines, append line = false → ∀ earlier < line, append earlier = false := by
  induction lines with
  | zero =>
      refine iff_of_true (fun _ never => absurd never List.not_mem_nil) fun _ never => ?_
      exact absurd never (Nat.not_lt_zero _)
  | succ lines ih =>
      rw [Nat.forall_lt_succ_right]
      cases result : append lines with
      | false =>
          rw [appendHeaders_fails result, appendHeaders_none_iff]
          refine ⟨fun none => ⟨fun line below _ earlier before => ?_, fun _ => none⟩,
            fun kept => kept.2 rfl⟩
          exact none earlier (before.trans below)
      | true =>
          rw [and_iff_left (fun fails => absurd fails (by simp)), ← ih]
          cases headers : (appendHeaders append lines).1 with
          | some first => rw [appendHeaders_goesOn result headers, headers]
          | none =>
              rw [appendHeaders_begins result headers]
              have before : ∀ first ∈ (appendHeaders append lines).2, first < lines :=
                (appendHeaders_begun lines).2
              constructor
              · intro kept first begun
                have same := Option.mem_some.mp (kept first (List.mem_append_left _ begun))
                exact absurd (before first begun) (by omega)
              · intro kept first begun
                rcases List.mem_append.mp begun with lost | last
                · exact absurd (kept first lost) (Option.not_mem_none _)
                · exact Option.mem_some.mpr (List.mem_singleton.mp last).symm

end Lists

/-! ### One request -/

/-- Settings that do not fail are all tried. -/
theorem Libcurl.tried_of_ok (curl : Libcurl) {settings : List Setting}
    (ok : curl.failure settings = none) : curl.tried settings = settings.map .setopt := by
  induction settings with
  | nil => rfl
  | cons setting settings ih =>
      rw [Libcurl.failure] at ok
      rw [Libcurl.tried, List.map_cons]
      split at ok
      · cases ok
      · rename_i passed
        rw [if_neg passed, ih ok]

theorem Libcurl.setopt_of_mem_tried (curl : Libcurl) {settings : List Setting} {call : CurlCall}
    (tried : call ∈ curl.tried settings) : ∃ setting, call = .setopt setting := by
  induction settings with
  | nil => exact absurd tried List.not_mem_nil
  | cons setting settings ih =>
      rw [Libcurl.tried] at tried
      rcases List.mem_cons.mp tried with here | there
      · exact ⟨setting, here⟩
      · split at there
        · exact absurd there List.not_mem_nil
        · exact ih there

namespace Asked

variable {word : WordSize} {asked : Asked}

variable (word asked) in
/-- The request gets through its transfer. -/
def Completes : Prop :=
  asked.curl.Performs (requestSettings asked.httpVerb asked.requestBody)
      (transferSettings word asked.client asked.httpVerb asked.httpPath asked.requestBody
        asked.useInstallationIdHeader asked.curl.seconds) ∧
    asked.curl.transfer.result = CURLE_OK

/-- The calls of a request that is given up: no call cleans up. -/
def GivesUp (calls : List CurlCall) : Prop :=
  ∀ call ∈ calls, call = .init ∨ call = .perform ∨ ∃ setting, call = .setopt setting

variable (word asked) in
/-- **The calls of libcurl.** -/
theorem curlCalls_cases :
    .init ∈ (asked.request word).curlCalls ∧
      (asked.curl.init = false → (asked.request word).curlCalls = [.init]) ∧
      (asked.Completes word ∧ (asked.request word).curlCalls =
          .init :: ((requestSettings asked.httpVerb asked.requestBody ++
            transferSettings word asked.client asked.httpVerb asked.httpPath asked.requestBody
              asked.useInstallationIdHeader asked.curl.seconds).map .setopt ++
            [.perform, .cleanup, .freeHeaders]) ∨
        ¬ asked.Completes word ∧ GivesUp (asked.request word).curlCalls) := by
  rw [Completes, request, parseSendRequestInternal]
  generalize requestSettings asked.httpVerb asked.requestBody = first
  generalize transferSettings word asked.client asked.httpVerb asked.httpPath asked.requestBody
    asked.useInstallationIdHeader asked.curl.seconds = second
  have tried : ∀ {settings : List Setting}, GivesUp (asked.curl.tried settings) :=
    fun call member => Or.inr (Or.inr (asked.curl.setopt_of_mem_tried member))
  split
  · rename_i noHandle
    refine ⟨List.mem_singleton_self _, fun _ => rfl, Or.inr ⟨fun completes => ?_, ?_⟩⟩
    · exact absurd completes.1.init (by simpa using noHandle)
    · exact List.forall_mem_singleton.mpr (Or.inl rfl)
  rename_i handle
  have init : asked.curl.init = true := by simpa using handle
  have noInit : ∀ {calls : List CurlCall}, asked.curl.init = false → calls = [.init] :=
    fun fails => absurd (init.symm.trans fails) (by simp)
  refine ⟨?_, noInit, ?_⟩
  · split
    · exact List.mem_cons_self ..
    · split
      · exact List.mem_cons_self ..
      · split
        · exact List.mem_cons_self ..
        · rw [Request.perform]
          split <;> exact List.mem_cons_self ..
  split
  · rename_i error fails
    refine Or.inr ⟨fun completes => ?_, List.forall_mem_cons.mpr ⟨Or.inl rfl, tried⟩⟩
    exact absurd (completes.1.first.symm.trans fails) (Option.some_ne_none error).symm
  rename_i firstOk
  split
  · rename_i noMemory
    refine Or.inr ⟨fun completes => ?_, List.forall_mem_cons.mpr ⟨Or.inl rfl, tried⟩⟩
    exact absurd completes.1.memory (by simpa using noMemory)
  rename_i memory
  split
  · rename_i error fails
    refine Or.inr ⟨fun completes => ?_, List.forall_mem_cons.mpr ⟨Or.inl rfl,
      List.forall_mem_append.mpr ⟨tried, tried⟩⟩⟩
    exact absurd (completes.1.second.symm.trans fails) (Option.some_ne_none error).symm
  rename_i secondOk
  rw [Request.perform]
  split
  · rename_i broken
    refine Or.inr ⟨fun completes => broken completes.2, ?_⟩
    refine List.forall_mem_append.mpr ⟨List.forall_mem_cons.mpr ⟨Or.inl rfl,
      List.forall_mem_append.mpr ⟨tried, tried⟩⟩, ?_⟩
    exact List.forall_mem_singleton.mpr (Or.inr (Or.inl rfl))
  · rename_i sent
    refine Or.inl ⟨⟨⟨init, firstOk, by simpa using memory, secondOk⟩, not_not.mp sent⟩, ?_⟩
    rw [asked.curl.tried_of_ok firstOk, asked.curl.tried_of_ok secondOk, List.map_append,
      List.cons_append]

/-- A request opens under its own number. -/
theorem number_of_mem_opens {number : Nat} :
    ∀ r ∈ asked.opens word number, r.number = number := by
  intro r opened
  obtain ⟨call, -, opening⟩ := List.mem_flatMap.mp opened
  rw [Asked.opening.eq_def] at opening
  split at opening
  · split at opening
    · rw [List.mem_singleton.mp opening]
      rfl
    · exact absurd opening List.not_mem_nil
  · obtain ⟨line, -, rfl⟩ := List.mem_map.mp opening
    rfl
  · exact absurd opening List.not_mem_nil

/-- A request that is given up closes nothing. -/
theorem closes_of_givesUp (givesUp : GivesUp (asked.request word).curlCalls) (number : Nat) :
    asked.closes word number = [] := by
  refine List.flatMap_eq_nil_iff.mpr fun call member => ?_
  rcases givesUp call member with rfl | rfl | ⟨setting, rfl⟩ <;> rfl

/-- A request that completes opens its handle and its lists, and closes the handle and the list
at hand. -/
theorem opens_of_completes (completes : asked.Completes word)
    (calls : (asked.request word).curlCalls =
      .init :: ((requestSettings asked.httpVerb asked.requestBody ++
        transferSettings word asked.client asked.httpVerb asked.httpPath asked.requestBody
          asked.useInstallationIdHeader asked.curl.seconds).map .setopt ++
        [.perform, .cleanup, .freeHeaders])) (number : Nat) :
    asked.opens word number = .easy number :: asked.headers.2.map (.headers number) ∧
      asked.closes word number =
        .easy number :: asked.headers.1.toList.map (.headers number) := by
  have first : (requestSettings asked.httpVerb asked.requestBody).flatMap
      (fun setting => asked.opening number (.setopt setting)) = [] := by
    rw [requestSettings.eq_def]
    cases asked.requestBody with
    | none => rfl
    | some requestBody =>
        dsimp only
        split <;> rfl
  have closed : ∀ settings : List Setting,
      (settings.map .setopt).flatMap (asked.closing number) = [] := fun settings =>
    List.flatMap_eq_nil_iff.mpr fun call member => by
      obtain ⟨setting, -, rfl⟩ := List.mem_map.mp member
      rfl
  have init : asked.opening number .init = [.easy number] := if_pos completes.1.init
  have second : ((transferSettings word asked.client asked.httpVerb asked.httpPath
      asked.requestBody asked.useInstallationIdHeader asked.curl.seconds).map
        CurlCall.setopt).flatMap (asked.opening number) =
      asked.headers.2.map (.headers number) :=
    List.append_nil _
  constructor
  · rw [Asked.opens, calls, List.flatMap_cons, List.flatMap_append, List.map_append,
      List.flatMap_append, List.flatMap_map, first, second, init]
    exact congrArg _ (List.append_nil _)
  · rw [Asked.closes, calls, List.flatMap_cons, List.flatMap_append, closed]
    exact congrArg (_ :: ·) (List.append_nil _)

/-- **What a request leaves.** It closes what it has opened only, and all of it exactly if it
passes. -/
theorem closes_opens (word : WordSize) (asked : Asked) (number : Nat) :
    (∀ r ∈ asked.closes word number, r ∈ asked.opens word number) ∧
      ((∀ r ∈ asked.opens word number, r ∈ asked.closes word number) ↔ asked.Passes word) := by
  obtain ⟨begins, alone, completes⟩ := asked.curlCalls_cases word
  cases init : asked.curl.init with
  | false =>
      have opened : asked.opens word number = [] := by
        rw [Asked.opens, alone init, List.flatMap_singleton, Asked.opening, init]
        rfl
      have closed : asked.closes word number = [] := by
        rw [Asked.closes, alone init]
        rfl
      rw [opened, closed]
      refine ⟨fun _ member => member, iff_of_true (fun _ member => member) fun made => ?_⟩
      exact absurd (made.symm.trans init) (by simp)
  | true =>
      have passes : asked.Passes word ↔ asked.Completes word ∧
          ∀ first ∈ asked.headers.2, first ∈ asked.headers.1 := by
        rw [Asked.Passes, Asked.headers, appendHeaders_kept_iff, Completes, and_assoc]
        exact ⟨fun h => h init, fun h _ => h⟩
      rw [passes]
      rcases completes with ⟨completes, calls⟩ | ⟨broken, givesUp⟩
      · obtain ⟨opened, closed⟩ := opens_of_completes completes calls number
        rw [opened, closed, and_iff_right completes]
        constructor
        · refine List.forall_mem_cons.mpr ⟨List.mem_cons_self .., List.forall_mem_map.mpr ?_⟩
          intro first atHand
          refine List.mem_cons_of_mem _ (List.mem_map_of_mem ?_)
          exact (appendHeaders_begun _).1 first (Option.mem_toList.mp atHand)
        · rw [List.forall_mem_cons, and_iff_right (List.mem_cons_self ..), List.forall_mem_map]
          refine forall₂_congr fun first _ => ?_
          rw [List.mem_cons, or_iff_right (by simp), List.mem_map]
          simp
      · rw [closes_of_givesUp givesUp]
        refine ⟨fun _ never => absurd never List.not_mem_nil,
          iff_of_false (fun none => ?_) fun passes => broken passes.1⟩
        refine List.not_mem_nil (none (.easy number) (List.mem_flatMap.mpr ⟨.init, begins, ?_⟩))
        rw [Asked.opening, init]
        exact List.mem_singleton_self _

end Asked

/-! ## Actions -/

/-- The client, the number of calls of `curl_easy_init`, and the handles and lists that are
open. -/
structure CurlWorld where
  client : Client
  made : Nat
  opened : Finset Resource

/-- What a start of the push service meets in libcurl: whether `curl_easy_init` succeeds, and the
rest of its surroundings. -/
structure Starting where
  init : Bool
  around : Surroundings

/-- The start gets no handle, or it gets a connection. -/
def Starting.Passes (starting : Starting) : Prop :=
  starting.init = true → starting.around.connectOnly = CURLE_OK ∧
    starting.around.useSsl = CURLE_OK ∧ starting.around.url = CURLE_OK ∧
    starting.around.perform = CURLE_OK

/-- What calls `curl_easy_init`. -/
inductive Attempt where
  | request (asked : Asked)
  | start (starting : Starting)

def Attempt.Passes (word : WordSize) : Attempt → Prop
  | .request asked => asked.Passes word
  | .start starting => starting.Passes

/-- What a function makes of the handles, and its attempts. -/
abbrev CurlAction := CurlWorld → CurlWorld × List Attempt

namespace CurlAction

def nothing : CurlAction := fun w => (w, [])

def followedBy (first second : CurlAction) : CurlAction := fun w =>
  let one := first w
  let two := second one.1
  (two.1, one.2 ++ two.2)

/-- A change of the client. -/
def update (change : Client → Client) : CurlAction := fun w =>
  ({ w with client := change w.client }, [])

/-- `parseSendRequestInternal`, with what its callback does in all of its calls. It is called
during the transfer, or when the request is given up, and in both cases in front of what cleans
up. -/
def request (word : WordSize) (asked : Asked) (callback : List RequestCall → CurlAction) :
    CurlAction :=
  fun w =>
  let during := callback (asked.request word).calls
    { w with
      made := w.made + 1
      opened := live w.opened ((asked.opens word w.made).map .opened) }
  ({ during.1 with
      opened := live during.1.opened ((asked.closes word w.made).map .closed) },
    .request asked :: during.2)

section Functions

variable (word : WordSize)

/-- `parseSetInstallationId` -/
def setInstallationId (installationId : Option CString) (curl : Easy) : CurlAction :=
  match installationId with
  | some id =>
      (update fun client =>
        { client with
          toParseClientInternal :=
            (parseSetInstallationId client.toParseClientInternal id).1 }).followedBy fun w =>
        match (parseSetInstallationId w.client.toParseClientInternal id).2.findSome?
            Event.request with
        | some (httpVerb, httpPath, requestBody) =>
            request word ⟨w.client, httpVerb, httpPath, some requestBody, false, curl⟩
              (fun calls => update (calls.foldl setInstallationCallback)) w
        | none => (w, [])
  | none => update fun client => { client with installationId := none }

/-- `parseCreateInstallationIdIfNeeded`, with the identifier that is stored or made. -/
def createInstallationIdIfNeeded (id : CString) (curl : Easy) : CurlAction := fun w =>
  match w.client.installationId with
  | some _ => (w, [])
  | none => setInstallationId word (some id) curl w

/-- What `parseSendRequest` meets: the identifier, and libcurl in the request for a new
installation and in the request itself. -/
structure Meets where
  id : CString
  creating : Easy
  curl : Easy

/-- `parseSendRequest` -/
def sendRequest (httpVerb httpPath : CString) (requestBody : Option CString) (meets : Meets)
    (callback : List RequestCall → CurlAction) : CurlAction :=
  (createInstallationIdIfNeeded word meets.id meets.creating).followedBy fun w =>
    request word ⟨w.client, httpVerb, httpPath, requestBody, true, meets.curl⟩ callback w

/-- `getSessionObjectCallback` associates the session. -/
def associates (call : RequestCall) : Bool :=
  match call.error, call.httpResponseBody with
  | 0, some body =>
      match simpleJsonProcessor body (CString.literal "objectId") (some (List.replicate 16 0)) 16,
        simpleJsonProcessor body (CString.literal "installationId") (some (List.replicate 40 0))
          40 with
      | .ok session, .ok installation => session.result ≠ 0 ∧ installation.result = 0
      | _, _ => false
  | _, _ => false

/-- `getSessionObjectCallback` in all of its calls, with what the requests then sent meet. -/
def getSessionObjectCallback (associating : Nat → Meets) : List RequestCall → CurlAction
  | [] => nothing
  | call :: calls =>
      (if associates call then
          sendRequest word (CString.literal "PUT") (CString.literal "/sessions/me")
            (some (CString.literal "\x7b\x7d")) (associating calls.length) fun _ => nothing
        else nothing).followedBy (getSessionObjectCallback associating calls)

/-- `parseSetSessionToken` -/
def setSessionToken (sessionToken : Option CString) (meets : Meets)
    (associating : Nat → Meets) : CurlAction :=
  match sessionToken with
  | some token =>
      (createInstallationIdIfNeeded word meets.id meets.creating).followedBy
        ((update fun client => { client with sessionToken := some token }).followedBy
          (sendRequest word (CString.literal "GET") (CString.literal "/sessions/me") none meets
            (getSessionObjectCallback word associating)))
  | none => update fun client => { client with sessionToken := none }

/-- `parseStartPushService` behind the identifier, which is there by then. -/
def connect (starting : Starting) : CurlAction := fun w =>
  let curl := if starting.init then some w.made else none
  let started := parseStartPushService w.client.toParseClientInternal
    { starting.around with curl }
  (⟨{ w.client with toParseClientInternal := started.client }, w.made + 1,
      live w.opened ((curl.toList.map .easy).map .opened)⟩,
    [.start starting])

/-- `parseStartPushService` -/
def startPushService (id : CString) (creating : Easy) (starting : Starting) : CurlAction := fun w =>
  if w.client.pushCurlHandle ≠ none then (w, [])
  else ((createInstallationIdIfNeeded word id creating).followedBy (connect starting)) w

/-- `parseStopPushService` -/
def stopPushService : CurlAction := fun w =>
  let stopped := parseStopPushService w.client.toParseClientInternal
  let closed := stopped.2.filterMap fun event =>
    match event with
    | .cleanup connection => some (.closed (.easy connection))
    | _ => none
  ({ w with
      client := { w.client with toParseClientInternal := stopped.1 }
      opened := live w.opened closed }, [])

end Functions

end CurlAction

/-- A call of the API. -/
inductive TransferCall where
  | sendRequest (httpVerb httpPath : CString) (requestBody : Option CString)
      (meets : CurlAction.Meets)
  | setInstallationId (installationId : Option CString) (curl : Easy)
  | setSessionToken (sessionToken : Option CString) (meets : CurlAction.Meets)
      (associating : Nat → CurlAction.Meets)
  | startPushService (id : CString) (creating : Easy) (starting : Starting)
  | stopPushService

/-- A call, where the callback of its request, if it has one, does this. -/
def TransferCall.act (word : WordSize) (callback : CurlAction) : TransferCall → CurlAction
  | .sendRequest httpVerb httpPath requestBody meets =>
      .sendRequest word httpVerb httpPath requestBody meets fun _ => callback
  | .setInstallationId installationId curl => .setInstallationId word installationId curl
  | .setSessionToken sessionToken meets associating =>
      .setSessionToken word sessionToken meets associating
  | .startPushService id creating starting => .startPushService word id creating starting
  | .stopPushService => .stopPushService

/-- What a callback calls, in all of its calls: one call, whose callback may call again, and then
the others. -/
inductive Calls where
  | none
  | call (first : TransferCall) (callback next : Calls)

def Calls.act (word : WordSize) : Calls → CurlAction
  | .none => .nothing
  | .call first callback next => (first.act word (callback.act word)).followedBy (next.act word)

/-! ## What an action leaves -/

/-- The handle of the push service. -/
def Client.pushHandle (client : Client) : Finset Resource :=
  match client.pushCurlHandle with
  | some number => {.easy number}
  | none => ∅

namespace CurlWorld

/-- What is open besides the handle of the push service. -/
def stray (w : CurlWorld) : Finset Resource := w.opened \ w.client.pushHandle

/-- Handles that will be made have not been made, and the one of the push service is open. -/
structure Numbered (w : CurlWorld) : Prop where
  made : ∀ r ∈ w.opened, r.number < w.made
  push : w.client.pushHandle ⊆ w.opened

end CurlWorld

/-- What is stray behind an action was so before or has been made by it, and it has left nothing
exactly if its attempts pass. -/
structure Leaves (word : WordSize) (w : CurlWorld) (done : CurlWorld × List Attempt) : Prop where
  numbered : done.1.Numbered
  later : w.made ≤ done.1.made
  stray : ∃ left : Finset Resource, done.1.stray = w.stray ∪ left ∧
    (∀ r ∈ left, w.made ≤ r.number) ∧
    (left = ∅ ↔ ∀ attempt ∈ done.2, attempt.Passes word)

/-- The action leaves this wherever it starts. -/
def CurlAction.Tracked (word : WordSize) (action : CurlAction) : Prop :=
  ∀ w : CurlWorld, w.Numbered → Leaves word w (action w)

namespace CurlAction

variable {word : WordSize}

theorem tracked_update (change : Client → Client)
    (same : ∀ client, (change client).pushHandle = client.pushHandle) :
    (update change).Tracked word := by
  intro w numbered
  have stray : (update change w).1.stray = w.stray := by
    change w.opened \ (change w.client).pushHandle = _
    rw [same]
    rfl
  refine ⟨⟨numbered.made, ?_⟩, Nat.le_refl _, ∅, ?_, ?_, ?_⟩
  · change (change w.client).pushHandle ⊆ _
    rw [same]
    exact numbered.push
  · rw [stray, Finset.union_empty]
  · exact fun _ never => absurd never (Finset.notMem_empty _)
  · exact iff_of_true rfl fun _ never => absurd never List.not_mem_nil

theorem tracked_nothing : nothing.Tracked word := tracked_update id fun _ => rfl

theorem leaves_followedBy {first second : CurlAction} {w : CurlWorld}
    (one : Leaves word w (first w)) (two : Leaves word (first w).1 (second (first w).1)) :
    Leaves word w (first.followedBy second w) := by
  obtain ⟨-, sooner, ⟨left, stray, new, none⟩⟩ := one
  obtain ⟨behind, later, ⟨left', stray', new', none'⟩⟩ := two
  refine ⟨behind, sooner.trans later, left ∪ left', ?_, ?_, ?_⟩
  · rw [← Finset.union_assoc, ← stray]
    exact stray'
  · intro r member
    rcases Finset.mem_union.mp member with member | member
    · exact new r member
    · exact sooner.trans (new' r member)
  · change _ ↔ ∀ attempt ∈ (first w).2 ++ (second (first w).1).2, attempt.Passes word
    rw [Finset.union_eq_empty, none, none', List.forall_mem_append]

theorem Tracked.followedBy {first second : CurlAction} (one : first.Tracked word)
    (two : second.Tracked word) : (first.followedBy second).Tracked word := fun w numbered =>
  leaves_followedBy (one w numbered) (two _ (one w numbered).numbered)

/-- A request in front of its callback. -/
theorem request_begins (word : WordSize) (asked : Asked) {w : CurlWorld} (numbered : w.Numbered) :
    let opened := live w.opened ((asked.opens word w.made).map .opened)
    let during : CurlWorld := { w with made := w.made + 1, opened }
    during.Numbered ∧ during.stray = w.stray ∪ (asked.opens word w.made).toFinset := by
  have fresh : ∀ r ∈ asked.opens word w.made, r ∉ w.client.pushHandle := by
    intro r member push
    have old := numbered.made r (numbered.push push)
    rw [asked.number_of_mem_opens r member] at old
    exact Nat.lt_irrefl _ old
  refine ⟨⟨fun r member => ?_, fun r push => ?_⟩, ?_⟩
  · rcases (mem_live_opened r _ _).mp member with old | new
    · exact Nat.lt_succ_of_lt (numbered.made r old)
    · rw [asked.number_of_mem_opens r new]
      exact Nat.lt_succ_self _
  · exact (mem_live_opened r _ _).mpr (Or.inl (numbered.push push))
  · ext r
    rw [CurlWorld.stray, CurlWorld.stray, Finset.mem_sdiff, Finset.mem_union, Finset.mem_sdiff,
      mem_live_opened, List.mem_toFinset]
    constructor
    · rintro ⟨old | new, notPush⟩
      · exact Or.inl ⟨old, notPush⟩
      · exact Or.inr new
    · rintro (⟨old, notPush⟩ | new)
      · exact ⟨Or.inl old, notPush⟩
      · exact ⟨Or.inr new, fresh r new⟩

/-- **A request leaves what it does not close**, and what its callback leaves. -/
theorem tracked_request (asked : Asked) {callback : List RequestCall → CurlAction}
    (tracked : ∀ calls, (callback calls).Tracked word) :
    (request word asked callback).Tracked word := by
  intro w numbered
  obtain ⟨begun, opens⟩ := request_begins word asked numbered
  obtain ⟨behind, later, ⟨left, stray, new, none⟩⟩ :=
    tracked (asked.request word).calls _ begun
  obtain ⟨own, all⟩ := asked.closes_opens word w.made
  rw [request]
  dsimp only at *
  generalize callback (asked.request word).calls _ = during at *
  rw [opens] at stray
  have number : ∀ r ∈ asked.opens word w.made, r.number = w.made := asked.number_of_mem_opens
  have old : ∀ r ∈ w.stray, r.number < w.made := fun r member =>
    numbered.made r (Finset.mem_sdiff.mp member).1
  -- what the request closes is its own, and not the handle of the push service
  have inStray : ∀ r ∈ asked.closes word w.made, r ∈ during.1.stray := fun r closed => by
    rw [stray]
    exact Finset.mem_union_left _ (Finset.mem_union_right _ (List.mem_toFinset.mpr (own r closed)))
  have notPush : ∀ r ∈ asked.closes word w.made, r ∉ during.1.client.pushHandle := fun r closed =>
    (Finset.mem_sdiff.mp (inStray r closed)).2
  let lost := (asked.opens word w.made).toFinset \ (asked.closes word w.made).toFinset
  have lostNone : lost = ∅ ↔ asked.Passes word := by
    rw [← all, Finset.sdiff_eq_empty_iff_subset]
    exact ⟨fun subset r opened => List.mem_toFinset.mp (subset (List.mem_toFinset.mpr opened)),
      fun closed r opened => List.mem_toFinset.mpr (closed r (List.mem_toFinset.mp opened))⟩
  have memLost : ∀ r, r ∈ lost ↔
      r ∈ asked.opens word w.made ∧ r ∉ asked.closes word w.made := fun r => by
    rw [Finset.mem_sdiff, List.mem_toFinset, List.mem_toFinset]
  refine ⟨⟨fun r member => ?_, fun r push => ?_⟩, ?_, lost ∪ left, ?_, ?_, ?_⟩
  · exact behind.made r ((mem_live_closed r _ _).mp member).1
  · exact (mem_live_closed r _ _).mpr
      ⟨behind.push push, fun closed => notPush r closed push⟩
  · exact (Nat.le_succ _).trans later
  · ext r
    rw [CurlWorld.stray, Finset.mem_sdiff, mem_live_closed, and_right_comm, Finset.mem_union,
      Finset.mem_union, memLost, ← Finset.mem_sdiff]
    change r ∈ during.1.stray ∧ _ ↔ _
    rw [stray, Finset.mem_union, Finset.mem_union, List.mem_toFinset]
    have ownNumber : r ∈ asked.closes word w.made → r.number = w.made := fun closed =>
      number r (own r closed)
    constructor
    · rintro ⟨(before | mine) | nested, notClosed⟩
      · exact Or.inl before
      · exact Or.inr (Or.inl ⟨mine, notClosed⟩)
      · exact Or.inr (Or.inr nested)
    · rintro (before | ⟨mine, notClosed⟩ | nested)
      · exact ⟨Or.inl (Or.inl before), fun closed =>
          Nat.ne_of_lt (old r before) (ownNumber closed)⟩
      · exact ⟨Or.inl (Or.inr mine), notClosed⟩
      · exact ⟨Or.inr nested, fun closed =>
          Nat.ne_of_gt (new r nested) (ownNumber closed)⟩
  · intro r member
    rcases Finset.mem_union.mp member with mine | nested
    · exact (number r ((memLost r).mp mine).1).ge
    · exact (Nat.le_succ _).trans (new r nested)
  · rw [Finset.union_eq_empty, lostNone, none]
    change _ ↔ ∀ attempt ∈ Attempt.request asked :: during.2, attempt.Passes word
    rw [List.forall_mem_cons]
    rfl

theorem setInstallationCallback_push (calls : List RequestCall) : ∀ client : Client,
    (calls.foldl setInstallationCallback client).pushCurlHandle = client.pushCurlHandle := by
  induction calls with
  | nil => exact fun _ => rfl
  | cons call calls ih =>
      intro client
      rw [List.foldl_cons, ih, setInstallationCallback]
      split
      · split
        · split <;> rfl
        · rfl
      · rfl

theorem pushHandle_congr {client client' : Client}
    (same : client'.pushCurlHandle = client.pushCurlHandle) :
    client'.pushHandle = client.pushHandle := by
  rw [Client.pushHandle, Client.pushHandle, same]

theorem tracked_setInstallationId (installationId : Option CString) (curl : Easy) :
    (setInstallationId word installationId curl).Tracked word := by
  cases installationId with
  | none =>
      exact tracked_update (fun client => { client with installationId := none }) fun _ => rfl
  | some id =>
      rw [setInstallationId]
      refine Tracked.followedBy (tracked_update _ fun _ => rfl) fun w numbered => ?_
      split
      · exact tracked_request _ (fun calls =>
          tracked_update _ fun client =>
            pushHandle_congr (setInstallationCallback_push calls client)) w numbered
      · exact tracked_nothing w numbered

theorem tracked_createInstallationIdIfNeeded (id : CString) (curl : Easy) :
    (createInstallationIdIfNeeded word id curl).Tracked word := by
  intro w numbered
  rw [createInstallationIdIfNeeded]
  split
  · exact tracked_nothing w numbered
  · exact tracked_setInstallationId (some id) curl w numbered

theorem tracked_sendRequest (httpVerb httpPath : CString) (requestBody : Option CString)
    (meets : Meets) {callback : List RequestCall → CurlAction}
    (tracked : ∀ calls, (callback calls).Tracked word) :
    (sendRequest word httpVerb httpPath requestBody meets callback).Tracked word :=
  (tracked_createInstallationIdIfNeeded meets.id meets.creating).followedBy fun w numbered =>
    tracked_request _ tracked w numbered

theorem tracked_getSessionObjectCallback (associating : Nat → Meets) (calls : List RequestCall) :
    (getSessionObjectCallback word associating calls).Tracked word := by
  induction calls with
  | nil => exact tracked_nothing
  | cons call calls ih =>
      rw [getSessionObjectCallback]
      refine Tracked.followedBy ?_ ih
      split
      · exact tracked_sendRequest _ _ _ _ fun _ => tracked_nothing
      · exact tracked_nothing

theorem tracked_setSessionToken (sessionToken : Option CString) (meets : Meets)
    (associating : Nat → Meets) :
    (setSessionToken word sessionToken meets associating).Tracked word := by
  cases sessionToken with
  | none =>
      exact tracked_update (fun client => { client with sessionToken := none }) fun _ => rfl
  | some token =>
      refine (tracked_createInstallationIdIfNeeded meets.id meets.creating).followedBy ?_
      refine Tracked.followedBy
        (tracked_update (fun client => { client with sessionToken := some token }) fun _ => rfl) ?_
      exact tracked_sendRequest _ _ _ _ (tracked_getSessionObjectCallback associating)

theorem tracked_stopPushService : stopPushService.Tracked word := by
  intro w numbered
  cases connection : w.client.pushCurlHandle with
  | none =>
      have nothing : stopPushService w = CurlAction.nothing w := by
        rw [stopPushService, parseStopPushService, connection]
        rfl
      rw [nothing]
      exact tracked_nothing w numbered
  | some number =>
      have stopped : stopPushService w =
          ({ w with
              client := { w.client with
                toParseClientInternal :=
                  { w.client.toParseClientInternal with pushCurlHandle := none } }
              opened := w.opened.erase (.easy number) }, []) := by
        rw [stopPushService, parseStopPushService, connection]
        rfl
      have push : w.client.pushHandle = {.easy number} := by
        rw [Client.pushHandle, connection]
      rw [stopped]
      refine ⟨⟨fun r member => ?_, Finset.empty_subset _⟩, Nat.le_refl _, ∅, ?_, ?_, ?_⟩
      · exact numbered.made r (Finset.mem_of_mem_erase member)
      · rw [Finset.union_empty, CurlWorld.stray, CurlWorld.stray, push,
          Finset.sdiff_singleton_eq_erase]
        exact Finset.sdiff_empty
      · exact fun _ never => absurd never (Finset.notMem_empty _)
      · exact iff_of_true rfl fun _ never => absurd never List.not_mem_nil

/-- The handle of the push service behind a start, and what is open then. -/
theorem connect_cases (starting : Starting) {w : CurlWorld}
    (idle : w.client.pushCurlHandle = none) :
    let next := (connect starting w).1
    (starting.Passes ∧ next.client.pushHandle = ∅ ∧ next.opened = w.opened) ∨
      (starting.Passes ∧ next.client.pushHandle = {.easy w.made} ∧
        next.opened = insert (.easy w.made) w.opened) ∨
      (¬ starting.Passes ∧ next.client.pushHandle = ∅ ∧
        next.opened = insert (.easy w.made) w.opened) := by
  have handle := parseStartPushService_handle idle
    { starting.around with curl := if starting.init then some w.made else none }
  dsimp only
  rw [Client.pushHandle, Starting.Passes, connect]
  dsimp only at *
  rw [handle]
  cases starting.init with
  | false =>
      refine Or.inl ⟨fun never => absurd never (by simp), ?_, rfl⟩
      simp
  | true =>
      by_cases passes : starting.around.connectOnly = CURLE_OK ∧
          starting.around.useSsl = CURLE_OK ∧ starting.around.url = CURLE_OK ∧
          starting.around.perform = CURLE_OK
      · rw [if_pos passes]
        exact Or.inr (Or.inl ⟨fun _ => passes, rfl, rfl⟩)
      · rw [if_neg passes]
        exact Or.inr (Or.inr ⟨fun all => passes (all rfl), rfl, rfl⟩)

/-- **A start leaves its handle** if it does not get a connection. -/
theorem leaves_connect (starting : Starting) {w : CurlWorld} (numbered : w.Numbered)
    (idle : w.client.pushCurlHandle = none) : Leaves word w (connect starting w) := by
  have stray : w.stray = w.opened := by
    rw [CurlWorld.stray, Client.pushHandle, idle]
    exact Finset.sdiff_empty
  have fresh : .easy w.made ∉ w.opened := fun old =>
    Nat.lt_irrefl _ (numbered.made (.easy w.made) old)
  have older : ∀ r ∈ w.opened, r.number < w.made + 1 := fun r old =>
    Nat.lt_succ_of_lt (numbered.made r old)
  have newest : ∀ r ∈ insert (.easy w.made) w.opened, r.number < w.made + 1 := fun r member => by
    rcases Finset.mem_insert.mp member with rfl | old
    · exact Nat.lt_succ_self _
    · exact older r old
  have attempts : (∀ attempt ∈ (connect starting w).2, attempt.Passes word) ↔
      starting.Passes := List.forall_mem_singleton
  have made : (connect starting w).1.made = w.made + 1 := rfl
  have cases := connect_cases starting idle
  dsimp only at cases
  generalize connect starting w = done at *
  rcases cases with ⟨passes, push, opened⟩ | ⟨passes, push, opened⟩ | ⟨fails, push, opened⟩
  · refine ⟨⟨?_, ?_⟩, made ▸ Nat.le_succ _, ∅, ?_, ?_, ?_⟩
    · rw [opened, made]
      exact older
    · rw [push]
      exact Finset.empty_subset _
    · rw [stray, CurlWorld.stray, push, opened, Finset.union_empty, Finset.sdiff_empty]
    · exact fun _ never => absurd never (Finset.notMem_empty _)
    · exact iff_of_true rfl (attempts.mpr passes)
  · refine ⟨⟨?_, ?_⟩, made ▸ Nat.le_succ _, ∅, ?_, ?_, ?_⟩
    · rw [opened, made]
      exact newest
    · rw [push, opened]
      exact Finset.singleton_subset_iff.mpr (Finset.mem_insert_self _ _)
    · rw [stray, CurlWorld.stray, push, opened, Finset.union_empty,
        Finset.sdiff_singleton_eq_erase, Finset.erase_insert fresh]
    · exact fun _ never => absurd never (Finset.notMem_empty _)
    · exact iff_of_true rfl (attempts.mpr passes)
  · refine ⟨⟨?_, ?_⟩, made ▸ Nat.le_succ _, {.easy w.made}, ?_, ?_, ?_⟩
    · rw [opened, made]
      exact newest
    · rw [push]
      exact Finset.empty_subset _
    · rw [stray, CurlWorld.stray, push, opened, Finset.sdiff_empty, Finset.union_comm,
        Finset.insert_eq]
    · exact fun r member => (Finset.mem_singleton.mp member) ▸ Nat.le_refl _
    · refine iff_of_false (Finset.singleton_ne_empty _) fun all => fails (attempts.mp all)

theorem createInstallationIdIfNeeded_push (id : CString) (curl : Easy) (w : CurlWorld) :
    (createInstallationIdIfNeeded word id curl w).1.client.pushCurlHandle =
      w.client.pushCurlHandle := by
  rw [createInstallationIdIfNeeded]
  split
  · rfl
  · exact setInstallationCallback_push _ _

theorem tracked_startPushService (id : CString) (creating : Easy) (starting : Starting) :
    (startPushService word id creating starting).Tracked word := by
  intro w numbered
  rw [startPushService]
  by_cases started : w.client.pushCurlHandle ≠ none
  · rw [if_pos started]
    exact tracked_nothing w numbered
  rw [if_neg started]
  have tracked : (createInstallationIdIfNeeded word id creating).Tracked word :=
    tracked_createInstallationIdIfNeeded id creating
  have created := tracked w numbered
  refine leaves_followedBy created (leaves_connect starting created.numbered ?_)
  rw [createInstallationIdIfNeeded_push]
  exact not_not.mp started

end CurlAction

/-- **Every call is tracked**, if what its callback does is. -/
theorem TransferCall.tracked_act {word : WordSize} {callback : CurlAction}
    (tracked : callback.Tracked word) (call : TransferCall) :
    (call.act word callback).Tracked word := by
  cases call with
  | sendRequest httpVerb httpPath requestBody meets =>
      exact CurlAction.tracked_sendRequest _ _ _ _ fun _ => tracked
  | setInstallationId installationId curl => exact CurlAction.tracked_setInstallationId _ _
  | setSessionToken sessionToken meets associating => exact CurlAction.tracked_setSessionToken _ _ _
  | startPushService id creating starting => exact CurlAction.tracked_startPushService _ _ _
  | stopPushService => exact CurlAction.tracked_stopPushService

theorem Calls.tracked_act (word : WordSize) (calls : Calls) : (calls.act word).Tracked word := by
  induction calls with
  | none => exact CurlAction.tracked_nothing
  | call first callback next ihCallback ihNext =>
      exact (first.tracked_act ihCallback).followedBy ihNext

/-! ### The functions on the files -/

section Process

open CurlAction

variable (word : WordSize) (homedir : List Byte) (p : Process) (made : Nat)
  (opened : Finset Resource)

/-- The client is the one of the function on the files. -/
theorem setInstallationId_client (installationId : Option CString) (curl : Easy) :
    (setInstallationId word installationId curl ⟨p.client, made, opened⟩).1.client =
      (p.setInstallationId word homedir installationId curl.toLibcurl).client := by
  cases installationId with
  | none => rfl
  | some id => rfl

theorem stopPushService_client :
    (stopPushService ⟨p.client, made, opened⟩).1.client = p.stopPushService.client := rfl

/-- `getSessionObjectCallback` sends its request exactly if it associates the session. -/
theorem getSessionObjectCallback_associates (outside : Outside) (call : RequestCall) :
    p.getSessionObjectCallback word homedir outside call =
      if associates call then
        (p.sendRequest word homedir (CString.literal "PUT") (CString.literal "/sessions/me")
          (some (CString.literal "\x7b\x7d")) outside).1
      else p := by
  rw [Process.getSessionObjectCallback, associates]
  generalize call.error = error, call.httpResponseBody = answer
  cases answer with
  | none => cases error with
    | ofNat n => cases n <;> rfl
    | negSucc n => rfl
  | some body => cases error with
    | negSucc n => rfl
    | ofNat n => cases n with
      | succ n => rfl
      | zero =>
          cases session : simpleJsonProcessor body (CString.literal "objectId")
            (some (List.replicate 16 0)) 16 with
          | error overread => simp [session, -List.reduceReplicate]
          | ok session =>
              cases installation : simpleJsonProcessor body (CString.literal "installationId")
                (some (List.replicate 40 0)) 40 with
              | error overread => simp [session, installation, -List.reduceReplicate]
              | ok installation => simp [session, installation, -List.reduceReplicate]

end Process

/-! ## Runs -/

/-- A process that has made no handle. -/
def CurlWorld.begin (client : Client) : CurlWorld where
  client := { client with pushCurlHandle := none }
  made := 0
  opened := ∅

theorem CurlWorld.numbered_begin (client : Client) : (CurlWorld.begin client).Numbered :=
  ⟨fun _ never => absurd never (Finset.notMem_empty _), Finset.empty_subset _⟩

/-- A call, with what the callback of its request calls. -/
def curlStep (word : WordSize) (w : CurlWorld) (call : TransferCall × Calls) :
    CurlWorld × List Attempt :=
  call.1.act word (call.2.act word) w

/-- What is open is the handle of the push service, if there is one. -/
def Clean (w : CurlWorld) : Prop := w.opened = w.client.pushHandle

theorem CurlWorld.Numbered.clean_iff {w : CurlWorld} (numbered : w.Numbered) :
    Clean w ↔ w.stray = ∅ := by
  rw [Clean, CurlWorld.stray, Finset.sdiff_eq_empty_iff_subset]
  exact ⟨fun same => same.subset, fun subset => subset.antisymm numbered.push⟩

/-- **When no handle is lost.** In a run of calls of the API, behind every call the easy handle
of the push service is open, if there is one, and no other handle and no header list, if and only
if every request in it that gets a handle, those of callbacks included, gets through its transfer
without a `curl_slist_append` that fails behind one that has not failed, and every start of the
push service that gets a handle gets a connection. -/
theorem curl_handles_iff (word : WordSize) (client : Client)
    (calls : List (TransferCall × Calls)) :
    (∀ t ∈ run (curlStep word) (.begin client) calls,
        ∀ attempt ∈ t.output, attempt.Passes word) ↔
      ∀ t ∈ run (curlStep word) (.begin client) calls, Clean t.after := by
  have tracked : ∀ (w : CurlWorld) (call : TransferCall × Calls), w.Numbered →
      Leaves word w (curlStep word w call) := fun w call =>
    call.1.tracked_act (call.2.tracked_act word) w
  have sameStep : ∀ (w : CurlWorld) (call : TransferCall × Calls), w.Numbered ∧ w.stray = ∅ →
      ((∀ attempt ∈ (curlStep word w call).2, attempt.Passes word) ↔
        (curlStep word w call).1.stray = ∅) := by
    intro w call ⟨numbered, clean⟩
    obtain ⟨-, -, ⟨left, stray, -, none⟩⟩ := tracked w call numbered
    rw [stray, clean, Finset.empty_union]
    exact none.symm
  refine run_forall_iff (curlStep word) (fun w => w.Numbered ∧ w.stray = ∅) _ _
    (fun w call inv => ?_) (fun w call inv passes => ?_) calls
    ⟨CurlWorld.numbered_begin client, Finset.empty_sdiff _⟩
  · exact (sameStep w call inv).trans (tracked w call inv.1).numbered.clean_iff.symm
  · exact ⟨(tracked w call inv.1).numbered, (sameStep w call inv).mp passes⟩

section Example

theorem couldntConnect_ne_ok : (7 : Int) ≠ CURLE_OK := by decide

theorem nothing_arrived : (([] : List Piece).map Piece.bytes).flatten <+: [] := List.nil_prefix

/-- The server cannot be reached. -/
def unreachable : Easy where
  init := true
  memory := true
  setopt _ := CURLE_OK
  seconds := 0
  transfer :=
    { body := []
      code := 0
      pieces := []
      result := 7
      arrived := nothing_arrived
      complete := fun ok => absurd ok couldntConnect_ne_ok
      taken := fun ok => absurd ok couldntConnect_ne_ok }
  append _ := true

def unreachableCall : TransferCall × Calls :=
  (.sendRequest (CString.literal "GET") (CString.literal "/x") none
    ⟨CString.literal "i", unreachable, unreachable⟩, .none)

theorem curl_handles_counterexample :
    ¬ ∀ t ∈ run (curlStep .bits64) (.begin splitClient) [unreachableCall], Clean t.after := by
  intro clean
  have lost : (fire (curlStep .bits64) (.begin splitClient) unreachableCall).after.opened =
      {.easy 0, .headers 0 0} := by
    decide +kernel
  have none : (fire (curlStep .bits64) (.begin splitClient)
      unreachableCall).after.client.pushHandle = ∅ := by
    decide +kernel
  have same := clean _ (List.mem_cons_self ..)
  exact absurd (lost.symm.trans (same.trans none)) (by decide)

end Example

end ParseEmbedded.Unix
