import ParseEmbedded.Library.Simulation
import ParseEmbedded.Unix.Durability
import ParseEmbedded.Yun.Provisioning

/-!
# The command `parse_request`

`main` of `parse_request.c` reads the provisioning and its options, makes a client of them, and then
answers a question for the installation or the session, or sends a request. It is a process of its
own each time: what it knows of the last one is in the files of the key store.

`commands_are_one_identity` says what commands that run one after the other look like from outside:
an installation and a session that are set by the last option, that stay until the next one, and
that are made up where there is none yet. `prints_answer_iff` says when the answer to the request is
printed as the server has sent it.
-/

set_option autoImplicit false

namespace ParseEmbedded.Yun

open Json SimpleJson Push Runs Simulation
open Rtos (strncpy stringOf zeros HoldsString string_append_nul)
open Unix (Files Home Process Client Start Outside Libcurl RequestCall Persists Stores Restores
  KeyMap valueBytes valueBytes_noNul bytes_injective restored parseInitializeWithServerURL
  initialize_restores)

/-! ## The options -/

/-- The options that have an argument. -/
inductive Letter where
  | a | k | x | y | u | v | e | d | p
  deriving DecidableEq

/-- The array that an option sets. -/
def Letter.setting : Letter → Option Setting
  | .a => some .appId
  | .k => some .clientKey
  | .x => some .installationId
  | .y => some .sessionToken
  | .u => some .serverURL
  | .v | .e | .d | .p => none

/-- What a call of `getopt` returns, with `optarg` or `optopt`. The result is kept in a `char`,
which is signed here, and so the loop comes to the -1 at the end of the options. -/
inductive Found where
  | letter (letter : Letter) (optarg : CString)
  | i
  | s
  | h
  | missing (optopt : Byte)
  | unknown (optopt : Byte)
  deriving DecidableEq

def displayHelp : List Byte :=
  ascii "parse_request, version " ++ Unix.VERSION ++ ascii "\n" ++
    ascii "Usage: parse_request [option] ...\n" ++ ascii "\n" ++
    ascii "  -v - set http verb\n" ++
    ascii "  -e - set http endpoint\n" ++
    ascii "  -d - set http request body\n" ++
    ascii "  -p - set parameters (used only for Parse query)\n" ++
    ascii "  -i - query installation id\n" ++
    ascii "  -s - query session token\n" ++
    ascii "  -a - set application id\n" ++
    ascii "  -k - set client key\n" ++
    ascii "  -x - set installation id\n" ++
    ascii "  -y - set session token\n" ++
    ascii "  -u - set server url\n" ++ ascii "\n"

/-- The options in front of the client: the arrays, or what is printed to `stderr` before the
process exits. -/
def preInit (argv0 : List Byte) : List Found → Globals → Except (List Byte) Globals
  | [], globals => .ok globals
  | .h :: _, _ => .error displayHelp
  | .letter letter optarg :: options, globals =>
      match letter.setting with
      | some setting =>
          preInit argv0 options (Function.update globals setting
            (strncpy (globals setting) optarg (setting.maxLen + 1)))
      -- the others are processed later
      | none => preInit argv0 options globals
  | .i :: options, globals => preInit argv0 options globals
  | .s :: options, globals => preInit argv0 options globals
  | .missing optopt :: _, _ =>
      .error (argv0 ++ ascii ": option '-" ++ [optopt] ++ ascii "' requires an argument\n")
  | .unknown optopt :: _, _ =>
      .error (argv0 ++ ascii ": option '-" ++ [optopt] ++ ascii "' is not recognized \n")

/-- The variables `verb`, `endpoint`, `data` and `params`. -/
structure Asked where
  verb : CString
  endpoint : CString
  data : Option CString
  params : Option CString

def Asked.start : Asked :=
  ⟨CString.literal "GET", CString.literal "/", some (CString.literal ""), none⟩

/-- The body that is sent: the parameters, if there are any, and for the verb `GET`. -/
def Asked.body (asked : Asked) : Option CString :=
  let data := if asked.verb.bytes.take 3 = ascii "GET" then asked.params else asked.data
  match asked.params with
  | none => data
  | some params => some params

/-- `arduinoGetInstallationId` -/
def arduinoGetInstallationId (client : Client) : List Byte :=
  match client.installationId with
  | some iid => iid.bytes
  | none => ascii "\n"

/-- `arduinoGetSessionToken` -/
def arduinoGetSessionToken (client : Client) : List Byte :=
  match client.sessionToken with
  | some st => st.bytes
  | none => ascii "\n"

/-- The options behind the client: what is asked for, or what is printed before the process
exits. -/
def postInit (client : Client) : List Found → Asked → Except (List Byte) Asked
  | [], asked => .ok asked
  | .letter .v optarg :: options, asked => postInit client options { asked with verb := optarg }
  | .letter .e optarg :: options, asked => postInit client options { asked with endpoint := optarg }
  | .letter .d optarg :: options, asked => postInit client options { asked with data := optarg }
  | .letter .p optarg :: options, asked => postInit client options { asked with params := optarg }
  | .i :: _, _ => .error (arduinoGetInstallationId client)
  | .s :: _, _ => .error (arduinoGetSessionToken client)
  | _ :: options, asked => postInit client options asked

/-! ## The process -/

/-- `arduinoCallHandler`: what it prints. -/
def arduinoCallHandler (call : RequestCall) : List Byte :=
  match call.error, call.httpResponseBody with
  | 0, some body => body.bytes
  | _, _ => []

/-- What a command meets: the bridge, its name and its options, the memory behind each array, and
what `parseInitialize`, `parseSetInstallationId`, `parseSetSessionToken` and `parseSendRequest`
meet. The client key and the address of the server of `start` are not used. -/
structure Command where
  connection : Option Bridge
  argv0 : List Byte
  options : List Found
  behind : Setting → List Byte
  start : Start
  setting : Libcurl
  session : Outside
  outside : Outside

/-- What a command does: what it prints, the verb, the endpoint and the body of the request that it
sends, and the calls of `arduinoQueryHandler`, which prints for itself. -/
structure Report where
  stdout : List Byte
  stderr : List Byte
  request : Option (CString × CString × Option CString)
  queried : List RequestCall

namespace Command

variable (word : WordSize) (homedir : List Byte) (command : Command)

/-- The arrays behind `yunReadProvisioningInfo`. -/
def provisioned : Globals :=
  (yunReadProvisioningInfo command.connection fun setting => zeros setting.maxLen).2

/-- An array as a string. -/
def text (globals : Globals) (setting : Setting) : CString :=
  CString.ofMemory (globals setting ++ command.behind setting)

/-- The array is the empty string. -/
def unset (globals : Globals) (setting : Setting) : Bool :=
  (globals setting).headD Byte.nul = Byte.nul

/-- The client, with the installation and the session that are set. -/
def client (files : Files) (globals : Globals) : Process :=
  let start := { command.start with
    clientKey := some (command.text globals .clientKey)
    serverURL := if unset globals .serverURL then none else some (command.text globals .serverURL) }
  let p := parseInitializeWithServerURL word homedir ⟨files, []⟩ (command.text globals .appId) start
  let p := if unset globals .installationId then p
    else p.setInstallationId word homedir (some (command.text globals .installationId))
      command.setting
  if unset globals .sessionToken then p
  else p.setSessionToken word homedir (some (command.text globals .sessionToken)) command.session

end Command

/-- `main` of `parse_request.c` -/
def parseRequest (word : WordSize) (homedir : List Byte) (files : Files) (command : Command) :
    Files × Report :=
  match preInit command.argv0 command.options command.provisioned with
  | .error errors => (files, ⟨[], errors, none, []⟩)
  | .ok globals =>
      if Command.unset globals .appId then
        (files, ⟨ascii "\x7b\"error\":\"missing application id\"\x7d\n", [], none, []⟩)
      else if Command.unset globals .clientKey then
        (files, ⟨ascii "\x7b\"error\":\"missing client key\"\x7d\n", [], none, []⟩)
      else
        let p := command.client word homedir files globals
        match postInit p.client command.options .start with
        | .error printed => (p.store.files, ⟨printed, [], none, []⟩)
        | .ok asked =>
            let (p, request) := p.sendRequest word homedir asked.verb asked.endpoint asked.body
              command.outside
            let sent := (asked.verb, asked.endpoint, asked.body)
            if asked.params = none then
              (p.store.files, ⟨request.calls.flatMap arduinoCallHandler, [], some sent, []⟩)
            else (p.store.files, ⟨[], [], some sent, request.calls⟩)

/-! ## What the options say -/

/-- The option that sets an array. -/
def Setting.letter : Setting → Letter
  | .appId => .a
  | .clientKey => .k
  | .installationId => .x
  | .sessionToken => .y
  | .serverURL => .u

theorem Letter.setting_eq_some_iff {letter : Letter} {setting : Setting} :
    letter.setting = some setting ↔ letter = setting.letter := by
  cases letter <;> cases setting <;> decide

/-- The argument of an option with this letter. -/
def Found.argument (letter : Letter) : Found → Option CString
  | .letter letter' optarg => if letter' = letter then some optarg else none
  | _ => none

/-- The argument of the last option with this letter. -/
def lastArgument (letter : Letter) (options : List Found) : Option CString :=
  (options.filterMap (Found.argument letter)).getLast?

theorem lastArgument_cons (letter : Letter) (found : Found) (options : List Found) :
    lastArgument letter (found :: options) =
      (lastArgument letter options).or (found.argument letter) := by
  rw [lastArgument, lastArgument, List.filterMap_cons]
  cases found.argument letter with
  | none => rw [Option.or_none]
  | some optarg =>
      dsimp only
      rw [List.getLast?_cons]
      cases (options.filterMap (Found.argument letter)).getLast? with
      | none => rfl
      | some last => rfl

/-- The process exits at this option. -/
def Found.stops : Found → Bool
  | .h | .missing _ | .unknown _ => true
  | _ => false

inductive Question where
  | installationId
  | sessionToken

def Found.question : Found → Option Question
  | .i => some .installationId
  | .s => some .sessionToken
  | _ => none

/-- The arguments fit the arrays. -/
def Fits (options : List Found) : Prop :=
  ∀ (setting : Setting) (optarg : CString), .letter setting.letter optarg ∈ options →
    optarg.length ≤ setting.maxLen

theorem Fits.tail {found : Found} {options : List Found} (fits : Fits (found :: options)) :
    Fits options := fun setting optarg member => fits setting optarg (List.mem_cons_of_mem _ member)

/-- Each array holds a string. -/
def HoldStrings (globals : Globals) : Prop :=
  ∀ setting : Setting, HoldsString setting.maxLen (globals setting)

theorem preInit_stops (argv0 : List Byte) (options : List Found) : ∀ globals : Globals,
    options.any Found.stops = true → ∃ errors, preInit argv0 options globals = .error errors := by
  induction options with
  | nil => exact fun _ stops => absurd stops Bool.false_ne_true
  | cons found options ih =>
      intro globals stops
      rw [List.any_cons] at stops
      cases found with
      | letter letter optarg =>
          rw [preInit]
          split
          · exact ih _ stops
          · exact ih _ stops
      | i | s => exact ih globals stops
      | h | missing optopt | unknown optopt => exact ⟨_, rfl⟩

/-- **The arrays behind the options** hold the last arguments, and where there is none what they
held before. -/
theorem preInit_arrays (argv0 : List Byte) (options : List Found) : ∀ globals : Globals,
    HoldStrings globals → Fits options → options.any Found.stops = false →
      ∃ arrays, preInit argv0 options globals = .ok arrays ∧ HoldStrings arrays ∧
        ∀ setting, CString.ofMemory (arrays setting) =
          (lastArgument setting.letter options).getD (CString.ofMemory (globals setting)) := by
  induction options with
  | nil => exact fun globals hold _ _ => ⟨globals, rfl, hold, fun _ => rfl⟩
  | cons found options ih =>
      intro globals hold fits goesOn
      rw [List.any_cons, Bool.or_eq_false_iff] at goesOn
      obtain ⟨here, goesOn⟩ := goesOn
      have passed : (∀ setting : Setting, found.argument setting.letter = none) →
          ∀ arrays : Globals, (∀ setting, CString.ofMemory (arrays setting) =
            (lastArgument setting.letter options).getD (CString.ofMemory (globals setting))) →
          ∀ setting, CString.ofMemory (arrays setting) =
            (lastArgument setting.letter (found :: options)).getD
              (CString.ofMemory (globals setting)) := by
        intro none arrays same setting
        rw [lastArgument_cons, none, Option.or_none]
        exact same setting
      cases found with
      | letter letter optarg =>
          rw [preInit]
          split
          · rename_i setting isSetting
            obtain rfl := Letter.setting_eq_some_iff.mp isSetting
            have short := fits setting optarg (List.mem_cons_self ..)
            obtain ⟨holds, stored⟩ := strncpy_short (hold setting).length short
            have hold' : HoldStrings (Function.update globals setting
                (strncpy (globals setting) optarg (setting.maxLen + 1))) := by
              intro other
              by_cases same : other = setting
              · rw [same, Function.update_self]
                exact holds
              · rw [Function.update_of_ne same]
                exact hold other
            obtain ⟨arrays, done, areStrings, same⟩ := ih _ hold' fits.tail goesOn
            refine ⟨arrays, done, areStrings, fun other => ?_⟩
            rw [same, lastArgument_cons, Found.argument]
            by_cases this : other = setting
            · rw [this, Function.update_self, if_pos rfl, CString.ext_bytes stored]
              cases lastArgument setting.letter options with
              | none => rfl
              | some last => rfl
            · have differ : setting.letter ≠ other.letter := by
                intro sameLetter
                have first := Letter.setting_eq_some_iff.mpr sameLetter
                rw [Letter.setting_eq_some_iff.mpr rfl] at first
                exact this (Option.some.inj first).symm
              rw [Function.update_of_ne this, if_neg differ, Option.or_none]
          · rename_i none
            obtain ⟨arrays, done, areStrings, same⟩ := ih _ hold fits.tail goesOn
            refine ⟨arrays, done, areStrings, passed (fun setting => if_neg fun this => ?_) _ same⟩
            rw [Letter.setting_eq_some_iff.mpr this] at none
            exact Option.some_ne_none _ none
      | i | s =>
          obtain ⟨arrays, done, areStrings, same⟩ := ih _ hold fits.tail goesOn
          exact ⟨arrays, done, areStrings, passed (fun _ => rfl) _ same⟩
      | h | missing optopt | unknown optopt => exact absurd here Bool.false_ne_true.symm

def Question.answer (client : Client) : Question → List Byte
  | .installationId => arduinoGetInstallationId client
  | .sessionToken => arduinoGetSessionToken client

/-- What the options ask for, if they are no question. -/
def askedFor (options : List Found) (asked : Asked) : Asked where
  verb := (lastArgument .v options).getD asked.verb
  endpoint := (lastArgument .e options).getD asked.endpoint
  data := (lastArgument .d options).or asked.data
  params := (lastArgument .p options).or asked.params

/-- An option that gives none of the variables an argument changes none. -/
theorem askedFor_cons_other {found : Found}
    (other : ∀ letter ∈ [Letter.v, .e, .d, .p], found.argument letter = none)
    (options : List Found) (asked : Asked) :
    askedFor (found :: options) asked = askedFor options asked := by
  have same : ∀ letter ∈ [Letter.v, .e, .d, .p],
      lastArgument letter (found :: options) = lastArgument letter options := by
    intro letter member
    rw [lastArgument_cons, other letter member, Option.or_none]
  rw [askedFor, askedFor, same .v (by decide), same .e (by decide), same .d (by decide),
    same .p (by decide)]

/-- The first question is answered, and where there is none the last arguments are taken. -/
theorem postInit_eq (client : Client) (options : List Found) : ∀ asked : Asked,
    postInit client options asked =
      match options.findSome? Found.question with
      | some question => .error (question.answer client)
      | none => .ok (askedFor options asked) := by
  induction options with
  | nil => exact fun _ => rfl
  | cons found options ih =>
      intro asked
      have later : found.question = none → ∀ next : Asked,
          postInit client (found :: options) asked = postInit client options next →
          askedFor (found :: options) asked = askedFor options next →
            postInit client (found :: options) asked =
              match (found :: options).findSome? Found.question with
              | some question => .error (question.answer client)
              | none => .ok (askedFor (found :: options) asked) := by
        intro noQuestion next goesOn same
        rw [goesOn, ih, List.findSome?_cons, noQuestion, same]
      cases found with
      | letter letter optarg =>
          cases letter with
          | v | e | d | p =>
              refine later rfl _ rfl ?_
              simp only [askedFor, lastArgument_cons, Found.argument]
              cases lastArgument _ options <;> simp
          | a | k | x | y | u =>
              exact later rfl asked rfl
                (askedFor_cons_other (by simp [Found.argument]) options asked)
      | i | s => rfl
      | h | missing optopt | unknown optopt =>
          exact later rfl asked rfl (askedFor_cons_other (fun _ _ => rfl) options asked)

/-! ## One identity -/

namespace Command

variable (command : Command)

/-- The last option for a setting, and without one what the bridge has sent. -/
def value (setting : Setting) : CString :=
  (lastArgument setting.letter command.options).getD
    (CString.ofMemory (command.provisioned setting))

/-- A setting that is not the empty string. -/
def given (setting : Setting) : Option CString :=
  if (command.value setting).bytes = [] then none else some (command.value setting)

/-- The command gets as far as its client. -/
def Starts : Prop :=
  command.options.any Found.stops = false ∧ (command.value .appId).bytes ≠ [] ∧
    (command.value .clientKey).bytes ≠ []

instance : Decidable command.Starts := inferInstanceAs (Decidable (_ ∧ _))

end Command

/-- The installation and the session of an application, where there are any. -/
structure Identity where
  installationId : Option CString
  sessionToken : Option CString

/-- What comes of a command: nothing, the answer to a question, or a request. -/
inductive Answer where
  | nothing
  | told (text : List Byte)
  | sent (verb endpoint : CString) (body : Option CString)

namespace Identity

variable (identity : Identity)

def setInstallation : Option CString → Identity
  | some id => { identity with installationId := some id }
  | none => identity

/-- A session is one of an installation: there is a fresh one, if there is no other. -/
def setSession (fresh : CString) : Option CString → Identity
  | some token => ⟨some (identity.installationId.getD fresh), some token⟩
  | none => identity

def answer : Question → List Byte
  | .installationId => (identity.installationId.map CString.bytes).getD (ascii "\n")
  | .sessionToken => (identity.sessionToken.map CString.bytes).getD (ascii "\n")

/-- The identity that a command works with. -/
def set (command : Command) : Identity :=
  (identity.setInstallation (command.given .installationId)).setSession
    command.session.around.uuid (command.given .sessionToken)

/-- A command: a setting that is given replaces the one that is there, a question is answered, and a
request is sent by an installation, a fresh one if there is none. -/
def command (command : Command) : Identity × Answer :=
  if command.Starts then
    let identity := identity.set command
    match command.options.findSome? Found.question with
    | some question => (identity, .told (identity.answer question))
    | none =>
        let asked := askedFor command.options .start
        ({ identity with
            installationId := some (identity.installationId.getD command.outside.around.uuid) },
          .sent asked.verb asked.endpoint asked.body)
  else (identity, .nothing)

end Identity

/-- What the process does is what comes of its command. -/
def Does : Report → Answer → Prop
  | report, .nothing => report.request = none
  | report, .told text => report.stdout = text ∧ report.request = none
  | report, .sent verb endpoint body => report.request = some (verb, endpoint, body)

/-- A value comes back from its file: it is not empty, and fits the buffer that it is loaded to. -/
def Lasting (value : CString) : Prop := value.bytes ≠ [] ∧ value.length < 40

/-- What there is comes back, and a session has an installation. -/
structure Identity.Lasts (identity : Identity) : Prop where
  installationId : ∀ id ∈ identity.installationId, Lasting id
  sessionToken : ∀ token ∈ identity.sessionToken, Lasting token
  complete : identity.installationId = none → identity.sessionToken = none

/-- The files hold the identity of the application. -/
def Identity.Stored (home : Home) (applicationId : CString) (files : Files)
    (identity : Identity) : Prop :=
  identity.Lasts ∧ ∃ m, home.Keeps files m ∧
    m.load applicationId.bytes Unix.PARSE_INSTALLATION_ID.bytes =
      valueBytes identity.installationId ∧
    m.load applicationId.bytes Unix.PARSE_SESSION_TOKEN.bytes = valueBytes identity.sessionToken ∧
    Byte.nul ∉ m.load applicationId.bytes Unix.PARSE_LAST_PUSH_TIME.bytes ∧
    (m.load applicationId.bytes Unix.PARSE_LAST_PUSH_TIME.bytes).length < 40

/-- The client has the identity, and has stored it. -/
structure Identity.Carried (home : Home) (applicationId : CString) (p : Process)
    (identity : Identity) : Prop where
  lasts : identity.Lasts
  persists : Persists home applicationId p
  installationId : p.client.installationId = identity.installationId
  sessionToken : p.client.sessionToken = identity.sessionToken

/-- The settings of a command have room in their arrays, those that are stored come back, and the
client is one of the application. -/
structure Command.Fitting (applicationId : CString) (command : Command) : Prop where
  provisioned : HoldStrings command.provisioned
  fits : Fits command.options
  application : command.Starts → command.value .appId = applicationId
  token : (command.value .sessionToken).length < 40
  session : Lasting command.session.around.uuid
  request : Lasting command.outside.around.uuid

section Lasts

variable {identity : Identity}

theorem Command.given_lasting {command : Command} {setting : Setting}
    (short : (command.value setting).length < 40) {value : CString}
    (isGiven : command.given setting = some value) : Lasting value := by
  rw [given] at isGiven
  split at isGiven
  · exact absurd isGiven (Option.some_ne_none value).symm
  · rename_i nonempty
    obtain rfl := Option.some.inj isGiven
    exact ⟨nonempty, short⟩

theorem Identity.Lasts.setInstallation (lasts : identity.Lasts) {given : Option CString}
    (lasting : ∀ id ∈ given, Lasting id) : (identity.setInstallation given).Lasts := by
  cases given with
  | none => exact lasts
  | some id =>
      refine ⟨lasting, lasts.sessionToken, fun none => absurd none (Option.some_ne_none id)⟩

theorem Identity.Lasts.getD (lasts : identity.Lasts) {fresh : CString} (lasting : Lasting fresh) :
    Lasting (identity.installationId.getD fresh) := by
  cases isId : identity.installationId with
  | none => exact lasting
  | some id => exact lasts.installationId id isId

theorem Identity.Lasts.setSession (lasts : identity.Lasts) {fresh : CString}
    (isFresh : Lasting fresh) {given : Option CString} (lasting : ∀ token ∈ given, Lasting token) :
    (identity.setSession fresh given).Lasts := by
  cases given with
  | none => exact lasts
  | some token =>
      refine ⟨fun id member => ?_, lasting, fun none => absurd none (Option.some_ne_none _)⟩
      obtain rfl := Option.some.inj member
      exact lasts.getD isFresh

end Lasts

section Carried

variable (word : WordSize) {home : Home} {applicationId : CString}
  (holds : home.Holds applicationId) {identity : Identity} {p : Process}

/-- What a client has stored is what its files hold. -/
theorem Identity.Carried.stored (carried : identity.Carried home applicationId p) :
    identity.Stored home applicationId p.store.files := by
  obtain ⟨lasts, ⟨⟨-, m, serving, id, token, time⟩, short⟩, isId, isToken⟩ := carried
  rw [isId] at id
  rw [isToken] at token
  refine ⟨lasts, m, serving.keeps, id, token, ?_, ?_⟩
  · rw [time]
    exact valueBytes_noNul _
  · rw [time]
    exact short

/-- A value that lasts comes back. -/
theorem restored_lasting {value : Option CString} (lasting : ∀ v ∈ value, Lasting v)
    (behind : List Byte) :
    (if valueBytes value ≠ [] then some (restored (valueBytes value) behind) else none) =
      value.map CString.bytes := by
  refine (Unix.restorable_iff behind value).mpr fun v isValue => ?_
  obtain ⟨nonempty, short⟩ := lasting v isValue
  exact ⟨nonempty, .inl short⟩

include holds

/-- **A new client** has the identity that is stored. -/
theorem Identity.Stored.started {files : Files}
    (stored : identity.Stored home applicationId files) (start : Start) :
    identity.Carried home applicationId
      (parseInitializeWithServerURL word home.text ⟨files, []⟩ applicationId start) := by
  obtain ⟨lasts, m, keeps, id, token, time, short⟩ := stored
  have stores : Stores home applicationId ⟨Unix.newClient applicationId start, ⟨files, []⟩⟩
      (valueBytes identity.installationId) (valueBytes identity.sessionToken) _ :=
    ⟨rfl, m, ⟨keeps, Or.inl rfl, fun used => absurd rfl used⟩, id, token, rfl⟩
  obtain ⟨persists, restores⟩ := initialize_restores word holds start stores
    (valueBytes_noNul _) (valueBytes_noNul _) time short
  refine ⟨lasts, persists, bytes_injective ?_, bytes_injective ?_⟩
  · rw [restores.installationId, ← restored_lasting lasts.installationId start.behindId]
    -- an installation is made up for a session only
    by_cases set : valueBytes identity.installationId ≠ []
    · rw [if_pos set, if_pos set]
    · have noId : identity.installationId = none := by
        cases isId : identity.installationId with
        | none => rfl
        | some id =>
            rw [isId] at set
            exact absurd (lasts.installationId id isId).1 set
      rw [if_neg set, if_neg set, lasts.complete noId]
      rfl
  · rw [restores.sessionToken, restored_lasting lasts.sessionToken]

/-- `parseSetInstallationId` of a setting that is given. -/
theorem Identity.Carried.setInstallation (carried : identity.Carried home applicationId p)
    {given : Option CString} (lasting : ∀ id ∈ given, Lasting id) (curl : Libcurl) :
    (identity.setInstallation given).Carried home applicationId
      (given.elim p fun id => p.setInstallationId word home.text (some id) curl) := by
  cases given with
  | none => exact carried
  | some id =>
      obtain ⟨-, set, same⟩ :=
        carried.persists.stores.setInstallationId word holds (some id) curl
      exact ⟨carried.lasts.setInstallation lasting,
        carried.persists.setInstallationId word holds (some id) curl, set,
        same.sessionToken.trans carried.sessionToken⟩

/-- `parseSetSessionToken` of a setting that is given. -/
theorem Identity.Carried.setSession (carried : identity.Carried home applicationId p)
    {given : Option CString} (lasting : ∀ token ∈ given, Lasting token) (outside : Outside)
    (fresh : Lasting outside.around.uuid) :
    (identity.setSession outside.around.uuid given).Carried home applicationId
      (given.elim p fun token => p.setSessionToken word home.text (some token) outside) := by
  cases given with
  | none => exact carried
  | some token =>
      obtain ⟨-, id, set, -⟩ := carried.persists.stores.setSessionToken word holds
        Unix.valueBytes_unset token outside
      rw [carried.installationId] at id
      exact ⟨carried.lasts.setSession fresh lasting,
        carried.persists.setSessionToken word holds (some token) outside, id, set⟩

/-- A request is sent by an installation. -/
theorem Identity.Carried.sendRequest (carried : identity.Carried home applicationId p)
    (verb endpoint : CString) (body : Option CString) (outside : Outside)
    (fresh : Lasting outside.around.uuid) :
    Identity.Carried home applicationId
      (p.sendRequest word home.text verb endpoint body outside).1
      { identity with
        installationId := some (identity.installationId.getD outside.around.uuid) } := by
  obtain ⟨-, id, same⟩ := carried.persists.stores.createInstallationIdIfNeeded word holds
    Unix.valueBytes_unset outside
  rw [carried.installationId] at id
  refine ⟨⟨fun new isNew => ?_, carried.lasts.sessionToken, fun none => ?_⟩,
    carried.persists.createInstallationIdIfNeeded word holds outside, id,
    same.sessionToken.trans carried.sessionToken⟩
  · obtain rfl := Option.some.inj isNew
    exact carried.lasts.getD fresh
  · exact absurd none (Option.some_ne_none _)

end Carried

/-! ## Commands -/

section Arrays

variable {command : Command} {arrays : Globals} (hold : HoldStrings arrays)
  (same : ∀ setting, CString.ofMemory (arrays setting) = command.value setting)

include hold same

theorem Command.text_eq (setting : Setting) :
    command.text arrays setting = command.value setting := by
  rw [← same setting]
  obtain ⟨front, back, isArray⟩ := List.append_of_mem (hold setting).ended
  refine CString.ext_bytes ?_
  change stringOf (arrays setting ++ command.behind setting) = stringOf (arrays setting)
  rw [isArray, List.append_assoc, List.cons_append, string_append_nul, string_append_nul]

theorem Command.unset_iff (setting : Setting) :
    unset arrays setting = true ↔ command.given setting = none := by
  rw [given, ← same setting, unset, decide_eq_true_eq]
  have nonempty : arrays setting ≠ [] := by
    intro empty
    have size := (hold setting).length
    rw [empty] at size
    exact absurd size (Nat.succ_ne_zero _).symm
  obtain ⟨c, rest, isArray⟩ := List.exists_cons_of_ne_nil nonempty
  rw [isArray, List.headD_cons]
  by_cases nul : c = Byte.nul
  · have empty : (CString.ofMemory (c :: rest)).bytes = [] := by
      change (c :: rest).takeWhile (· ≠ Byte.nul) = []
      rw [List.takeWhile_cons_of_neg (by simp [nul])]
    rw [if_pos empty]
    exact iff_of_true nul rfl
  · have some : (CString.ofMemory (c :: rest)).bytes ≠ [] := by
      change (c :: rest).takeWhile (· ≠ Byte.nul) ≠ []
      rw [List.takeWhile_cons_of_pos (by simp [nul])]
      exact List.cons_ne_nil _ _
    rw [if_neg some]
    exact iff_of_false nul (Option.some_ne_none _)

end Arrays

theorem Command.Fitting.value_length {applicationId : CString} {command : Command}
    (fitting : command.Fitting applicationId) (setting : Setting) :
    (command.value setting).length ≤ setting.maxLen := by
  rw [value]
  cases isLast : lastArgument setting.letter command.options with
  | none => exact (fitting.provisioned setting).string_length
  | some optarg =>
      obtain ⟨found, member, argument⟩ := List.mem_filterMap.mp (List.mem_of_getLast? isLast)
      cases found with
      | letter letter given =>
          rw [Found.argument] at argument
          split at argument
          · rename_i isLetter
            obtain rfl := Option.some.inj argument
            exact fitting.fits setting given (isLetter ▸ member)
          · exact absurd argument (Option.some_ne_none _).symm
      | i | s | h | missing _ | unknown _ => exact absurd argument (Option.some_ne_none _).symm

section Commands

variable (word : WordSize) {home : Home} {applicationId : CString}
  (holds : home.Holds applicationId) {identity : Identity} {files : Files} {command : Command}

include holds

/-- **The client of a command** carries the identity that the command works with. -/
theorem Command.client_carried (stored : identity.Stored home applicationId files)
    (fitting : command.Fitting applicationId) {arrays : Globals} (hold : HoldStrings arrays)
    (same : ∀ setting, CString.ofMemory (arrays setting) = command.value setting)
    (application : command.value .appId = applicationId) :
    (identity.set command).Carried home applicationId
      (command.client word home.text files arrays) := by
  have id : ∀ id ∈ command.given .installationId, Lasting id := fun id isGiven =>
    given_lasting (Nat.lt_of_le_of_lt (fitting.value_length .installationId) (by decide)) isGiven
  have token : ∀ token ∈ command.given .sessionToken, Lasting token := fun token isGiven =>
    given_lasting fitting.token isGiven
  have settings : ∀ (p : Process) (setting : Setting) (act : CString → Process),
      (if unset arrays setting then p else act (command.text arrays setting)) =
        (command.given setting).elim p act := by
    intro p setting act
    have unsets := unset_iff hold same setting
    rw [text_eq hold same]
    by_cases none : command.given setting = none
    · rw [if_pos (unsets.mpr none), none, Option.elim_none]
    · have some : command.given setting = some (command.value setting) := by
        rw [given] at none ⊢
        split at none
        · exact absurd rfl none
        · rename_i nonempty
          exact if_neg nonempty
      rw [if_neg (mt unsets.mp none), some, Option.elim_some]
  rw [client]
  dsimp only
  rw [settings _ .installationId fun value =>
      Process.setInstallationId word home.text _ (some value) command.setting,
    settings _ .sessionToken fun value =>
      Process.setSessionToken word home.text _ (some value) command.session,
    text_eq hold same .appId, application]
  exact ((stored.started word holds _).setInstallation word holds id _).setSession word holds
    token _ fitting.session

/-- **One command.** -/
theorem parseRequest_simulates : Simulates
    (fun files identity => identity.Stored home applicationId files)
    (Command.Fitting applicationId) Does (parseRequest word home.text) Identity.command := by
  intro files identity command stored fitting
  have stays : ∀ {stdout stderr : List Byte}, ¬ command.Starts →
      parseRequest word home.text files command = (files, ⟨stdout, stderr, none, []⟩) →
        (identity.command command).1.Stored home applicationId
            (parseRequest word home.text files command).1 ∧
          Does (parseRequest word home.text files command).2 (identity.command command).2 := by
    intro stdout stderr no done
    rw [done, Identity.command, if_neg no]
    exact ⟨stored, rfl⟩
  by_cases stops : command.options.any Found.stops = true
  · obtain ⟨errors, exits⟩ := preInit_stops command.argv0 command.options command.provisioned stops
    refine stays (fun starts => ?_) (by rw [parseRequest, exits])
    exact absurd (stops.symm.trans starts.1) Bool.false_ne_true.symm
  obtain ⟨arrays, done, hold, same⟩ := preInit_arrays command.argv0 command.options
    command.provisioned fitting.provisioned fitting.fits (Bool.not_eq_true _ ▸ stops)
  have unsets := fun setting => Command.unset_iff hold same setting
  have empty : ∀ setting, command.given setting = none ↔ (command.value setting).bytes = [] := by
    intro setting
    rw [Command.given]
    split <;> simp [*]
  by_cases noApp : Command.unset arrays .appId = true
  · refine stays (fun starts => ?_) (by rw [parseRequest, done]; exact if_pos noApp)
    exact starts.2.1 ((empty .appId).mp ((unsets .appId).mp noApp))
  by_cases noKey : Command.unset arrays .clientKey = true
  · refine stays (fun starts => ?_)
      (by rw [parseRequest, done]; exact (if_neg noApp).trans (if_pos noKey))
    exact starts.2.2 ((empty .clientKey).mp ((unsets .clientKey).mp noKey))
  have starts : command.Starts :=
    ⟨Bool.not_eq_true _ ▸ stops, fun no => noApp ((unsets .appId).mpr ((empty .appId).mpr no)),
      fun no => noKey ((unsets .clientKey).mpr ((empty .clientKey).mpr no))⟩
  have carried := Command.client_carried word holds stored fitting hold same
    (fitting.application starts)
  rw [parseRequest, done, Identity.command, if_pos starts]
  dsimp only
  rw [if_neg noApp, if_neg noKey, postInit_eq]
  generalize command.client word home.text files arrays = p at carried
  cases command.options.findSome? Found.question with
  | some question =>
      refine ⟨carried.stored, ?_, rfl⟩
      cases question with
      | installationId =>
          change arduinoGetInstallationId p.client = _
          rw [arduinoGetInstallationId, carried.installationId, Identity.answer]
          cases (identity.set command).installationId <;> rfl
      | sessionToken =>
          change arduinoGetSessionToken p.client = _
          rw [arduinoGetSessionToken, carried.sessionToken, Identity.answer]
          cases (identity.set command).sessionToken <;> rfl
  | none =>
      have sent := carried.sendRequest word holds (askedFor command.options .start).verb
        (askedFor command.options .start).endpoint (askedFor command.options .start).body
        command.outside fitting.request
      dsimp only
      split
      · exact ⟨sent.stored, rfl⟩
      · exact ⟨sent.stored, rfl⟩

/-- **The commands of an application are one identity.** They run one after the other, each with any
options in any order, whatever the server answers. The installation and the session are those that
the last option has set; they stay until another option sets them, and where a session or a request
needs an installation and there is none, a fresh one is made up and stays. A question is answered
with them, and otherwise the request is sent that the last options ask for. -/
theorem commands_are_one_identity (stored : identity.Stored home applicationId files)
    (commands : List Command) (fitting : ∀ command ∈ commands, command.Fitting applicationId) :
    (final Identity.command identity commands).Stored home applicationId
        (final (parseRequest word home.text) files commands) ∧
      List.Forall₂ Does (shown (parseRequest word home.text) files commands)
        (shown Identity.command identity commands) :=
  run_simulates _ _ Does (parseRequest_simulates word holds) commands stored fitting

end Commands

/-- A command without a bridge and without a network. -/
def exampleCommand (options : List Found) : Command where
  connection := none
  argv0 := ascii "parse_request"
  options := .letter .a (CString.literal "a") :: .letter .k (CString.literal "k") :: options
  behind := fun _ => []
  start := Unix.exampleStart
  setting := Unix.offline
  session := Unix.exampleOutside
  outside := Unix.exampleOutside

/-- An installation is set by the first command, and the second asks for it. -/
def twoCommands : List Command :=
  [exampleCommand [.letter .x (CString.literal "one")], exampleCommand [.i]]

theorem twoCommands_fitting :
    ∀ command ∈ twoCommands, command.Fitting Unix.exampleApplication := by
  have lasting : Lasting Unix.exampleOutside.around.uuid := by
    constructor <;> decide
  have fits : ∀ found ∈ twoCommands.flatMap Command.options, ∀ (setting : Setting)
      (optarg : CString), found = .letter setting.letter optarg →
        optarg.length ≤ setting.maxLen := by
    rw [twoCommands]
    simp only [exampleCommand, List.flatMap_cons, List.flatMap_nil, List.append_nil,
      List.cons_append, List.nil_append, List.forall_mem_cons]
    refine ⟨?_, ?_, ?_, ?_, ?_, ?_, fun _ member => absurd member List.not_mem_nil⟩
    all_goals
      intro setting optarg same
      cases setting <;> cases same <;> decide
  intro command member
  have bridgeless : command.connection = none ∧ command.value .appId = Unix.exampleApplication ∧
      (command.value .sessionToken).length < 40 ∧ command.session = Unix.exampleOutside ∧
        command.outside = Unix.exampleOutside := by
    revert command
    rw [twoCommands, List.forall_mem_cons, List.forall_mem_singleton]
    exact ⟨⟨rfl, by decide, by decide, rfl, rfl⟩, ⟨rfl, by decide, by decide, rfl, rfl⟩⟩
  obtain ⟨connection, application, token, session, outside⟩ := bridgeless
  refine ⟨fun setting => ?_, fun setting optarg isOption => ?_, fun _ => application, token,
    session ▸ lasting, outside ▸ lasting⟩
  · rw [Command.provisioned, connection]
    exact (Rtos.zeros_terminated setting.maxLen).holdsString
  · exact fits _ (List.mem_flatMap_of_mem member isOption) setting optarg rfl

theorem commands_are_one_identity_twice :
    (final Identity.command ⟨none, none⟩ twoCommands).Stored Unix.exampleHome
        Unix.exampleApplication
        (final (parseRequest .bits64 Unix.exampleHome.text) Unix.exampleFiles twoCommands) ∧
      List.Forall₂ Does
        (shown (parseRequest .bits64 Unix.exampleHome.text) Unix.exampleFiles twoCommands)
        (shown Identity.command ⟨none, none⟩ twoCommands) := by
  have none : ∀ (value : CString), value ∈ (.none : Option CString) → Lasting value :=
    fun value isNone => absurd isNone (Option.not_mem_none value)
  have stored : Identity.Stored Unix.exampleHome Unix.exampleApplication Unix.exampleFiles
      ⟨.none, .none⟩ :=
    ⟨⟨none, none, fun _ => rfl⟩, .empty, Unix.exampleFiles_fresh, rfl, rfl,
      List.not_mem_nil, Nat.succ_pos _⟩
  exact commands_are_one_identity .bits64 Unix.exampleHome_holds stored twoCommands
    twoCommands_fitting

/-! ## The answer to a request -/

/-- Every call of libcurl but the transfer succeeds. -/
structure Online (curl : Libcurl) : Prop where
  init : curl.init = true
  memory : curl.memory = true
  setopt : ∀ setting, curl.setopt setting = Unix.CURLE_OK

theorem Online.failure {curl : Libcurl} (online : Online curl) (settings : List Unix.Setting) :
    curl.failure settings = none := by
  induction settings with
  | nil => rfl
  | cons setting settings ih =>
      rw [Libcurl.failure, if_neg (not_not.mpr (online.setopt setting))]
      exact ih

/-- What is printed of the pieces that a transfer hands over. -/
theorem printed_pieces (code : Int) (pieces : List Unix.Piece)
    (taken : ∀ piece ∈ pieces, piece.Taken) :
    (pieces.map fun piece => (Unix.curlDataCallback code piece).1).flatMap arduinoCallHandler =
      (pieces.map Unix.Piece.bytes).flatMap (List.takeWhile (· ≠ Byte.nul)) := by
  rw [List.flatMap_map, List.flatMap_map]
  refine List.flatMap_congr fun piece member => ?_
  have isTaken := taken piece member
  rw [Unix.Piece.Taken, Unix.curlDataCallback] at isTaken
  rw [Unix.curlDataCallback]
  split at isTaken
  · rename_i memory
    rw [if_pos memory]
    exact string_append_nul piece.bytes []
  · -- a piece that is taken without memory is empty
    rename_i noMemory
    rw [if_neg noMemory, List.eq_nil_of_length_eq_zero isTaken.symm]
    rfl

/-- Pieces of a text are the text as far as their first zeros exactly if it has none. -/
theorem flatMap_strings_iff (pieces : List (List Byte)) :
    pieces.flatMap (List.takeWhile (· ≠ Byte.nul)) = pieces.flatten ↔
      Byte.nul ∉ pieces.flatten := by
  constructor
  · intro same member
    rw [← same] at member
    obtain ⟨piece, -, inPiece⟩ := List.mem_flatMap.mp member
    simpa using List.mem_takeWhile_imp inPiece
  · intro noNul
    rw [← List.flatMap_id]
    refine List.flatMap_congr fun piece member => List.takeWhile_eq_self_iff.mpr fun c inPiece => ?_
    refine decide_eq_true fun isNul => noNul ?_
    exact List.mem_flatten_of_mem member (isNul ▸ inPiece)

/-- **A command prints the answer to its request** as it is, however it is cut on its way, exactly
if there is no zero in it. -/
theorem prints_answer_iff (word : WordSize) (homedir : List Byte) (files : Files)
    (command : Command) (sends : (parseRequest word homedir files command).2.request ≠ none)
    (noParams : lastArgument .p command.options = none) (online : Online command.outside.curl)
    (complete : command.outside.curl.transfer.result = Unix.CURLE_OK) :
    (parseRequest word homedir files command).2.stdout = command.outside.curl.transfer.body ↔
      Byte.nul ∉ command.outside.curl.transfer.body := by
  have answered : ∀ (client : Client) (verb endpoint : CString) (body : Option CString),
      (Unix.parseSendRequestInternal word client verb endpoint body true
        command.outside.curl).calls.flatMap arduinoCallHandler =
          (command.outside.curl.transfer.pieces.map Unix.Piece.bytes).flatMap
            (List.takeWhile (· ≠ Byte.nul)) := by
    intro client verb endpoint body
    simp only [Unix.parseSendRequestInternal, online.init, online.failure, online.memory,
      Bool.not_true, Bool.false_eq_true, if_false]
    rw [Unix.Request.perform, if_neg (not_not.mpr complete)]
    exact printed_pieces _ _ (command.outside.curl.transfer.taken complete)
  rw [← command.outside.curl.transfer.complete complete, ← flatMap_strings_iff]
  refine Eq.congr_left ?_
  rw [parseRequest] at sends ⊢
  cases isArrays : preInit command.argv0 command.options command.provisioned with
  | error errors =>
      rw [isArrays] at sends
      exact absurd rfl sends
  | ok arrays =>
      rw [isArrays] at sends
      dsimp only at sends ⊢
      by_cases noApp : Command.unset arrays .appId = true
      · rw [if_pos noApp] at sends
        exact absurd rfl sends
      by_cases noKey : Command.unset arrays .clientKey = true
      · rw [if_neg noApp, if_pos noKey] at sends
        exact absurd rfl sends
      rw [if_neg noApp, if_neg noKey, postInit_eq] at sends ⊢
      cases asks : command.options.findSome? Found.question with
      | some question =>
          rw [asks] at sends
          exact absurd rfl sends
      | none =>
          have none : (askedFor command.options .start).params = none := by
            rw [askedFor, noParams]
            rfl
          dsimp only
          rw [if_pos none]
          exact answered _ _ _ _

/-- The two pieces are copied. -/
theorem greeting_taken :
    ∀ piece ∈ ([⟨ascii "h", true⟩, ⟨ascii "i", true⟩] : List Unix.Piece), piece.Taken := by
  rw [List.forall_mem_cons, List.forall_mem_singleton]
  exact ⟨rfl, rfl⟩

/-- A network on which each answer is `hi`, in two pieces. -/
def greeting : Libcurl where
  init := true
  memory := true
  setopt _ := Unix.CURLE_OK
  seconds := 0
  transfer :=
    { body := ascii "hi"
      code := 200
      pieces := [⟨ascii "h", true⟩, ⟨ascii "i", true⟩]
      result := Unix.CURLE_OK
      arrived := ⟨[], rfl⟩
      complete := fun _ => rfl
      taken := fun _ => greeting_taken }

/-- A command that sends a request on this network. -/
def greeted : Command :=
  { exampleCommand [.letter .e (CString.literal "/hi")] with
    outside := { Unix.exampleOutside with curl := greeting } }

theorem prints_answer_hi :
    (parseRequest .bits64 Unix.exampleHome.text Unix.exampleFiles greeted).2.stdout = ascii "hi" ↔
      Byte.nul ∉ ascii "hi" :=
  prints_answer_iff .bits64 Unix.exampleHome.text Unix.exampleFiles greeted (by decide +kernel)
    (by decide) ⟨rfl, rfl, fun _ => rfl⟩ rfl

end ParseEmbedded.Yun
