import ParseEmbedded.Library.Fields
import ParseEmbedded.Library.Runs
import ParseEmbedded.Rtos.ClientState

/-!
# The configuration of the blink sample

The blink sample of the CC3200 (`config.c`, `network.c`, `main.c` and `board.c` of
`samples/blink`) starts in configuration mode if it has no configuration in its flash: a form is
posted to it value by value, and when it is complete the device saves what it has and resets
itself. With a configuration it starts in application mode, until a factory reset deletes the file.
A save may fail or lose power on its way, and the power may go at any time.

`Station` is what a user knows of a device, in terms of the texts posted. The device follows it
through every history (`device_follows_station`), and what has been posted and saved is there again
behind the reset (`posted_is_restored`).
-/

set_option autoImplicit false

namespace ParseEmbedded.Rtos.Blink

open SimpleJson Runs Fields

/-! ## The form -/

abbrev MAXIMAL_SSID_LENGTH : Nat := 32
abbrev DEVICE_NAME_MAX_LEN : Nat := 64

/-- The arrays that the form fills. -/
inductive Field where
  | ssid
  | securityKey
  | applicationId
  | clientKey
  | installationId
  | sessionToken
  | deviceName
  deriving DecidableEq, Repr

/-- How many characters the array of a field has room for. -/
def Field.maxLen : Field → Nat
  | .ssid => MAXIMAL_SSID_LENGTH
  | .securityKey => 49
  | .applicationId => APPLICATION_ID_MAX_LEN
  | .clientKey => CLIENT_KEY_MAX_LEN
  | .installationId => INSTALLATION_ID_MAX_LEN
  | .sessionToken => SESSION_TOKEN_MAX_LEN
  | .deviceName => DEVICE_NAME_MAX_LEN

/-- `sizeof` -/
def Field.size (field : Field) : Nat := field.maxLen + 1

/-- The name of a field in the form. -/
def Field.token : Field → CString
  | .ssid => CString.literal "__SL_P_USA"
  | .securityKey => CString.literal "__SL_P_USC"
  | .applicationId => CString.literal "__SL_P_USD"
  | .clientKey => CString.literal "__SL_P_USE"
  | .installationId => CString.literal "__SL_P_USF"
  | .sessionToken => CString.literal "__SL_P_USG"
  | .deviceName => CString.literal "__SL_P_USH"

def ADD_TOKEN : CString := CString.literal "__SL_P_USZ"

def SECURITY_TOKEN : CString := CString.literal "__SL_P_USB"

/-- The fields, in the order of the comparisons. -/
def fields : List Field :=
  [.ssid, .securityKey, .applicationId, .clientKey, .installationId, .sessionToken, .deviceName]

/-- The fields of the file, in the order of the writes. -/
def config : List Field :=
  [.applicationId, .clientKey, .installationId, .sessionToken, .deviceName]

def fieldNamed (tokenName : CString) : Option Field :=
  fields.find? fun field => tokenName = field.token

inductive SecurityType where
  | typeOpen
  | typeWep
  | typeWpa
  deriving DecidableEq, Repr

def securityTypeOf (tokenValue : CString) : SecurityType :=
  match tokenValue.bytes.head? with
  | some 49 => .typeWep
  | some 50 => .typeWpa
  | _ => .typeOpen

/-- The string of a token, of which 255 bytes are copied. -/
def tokenText (data : List Byte) : CString := CString.ofMemory (data.take 255)

/-! ## The device -/

abbrev Globals := Field → List Byte

/-- What the device does: it has a form to fill in, it runs the application, or it loops for
ever. -/
inductive Mode where
  | configuration
  | application
  | stuck
  deriving DecidableEq, Repr

/-- The globals, and the file with the configuration. -/
structure Device where
  mode : Mode
  globals : Globals
  securityType : SecurityType
  provisioningDone : Bool
  file : Option (List Byte)

/-- The array of a field behind `strncpy` and the zero. -/
def assign (field : Field) (tokenValue : CString) (tokenValueLen : Nat) (array : List Byte) :
    List Byte :=
  let tokenValueLen := min tokenValueLen field.maxLen
  (strncpy array tokenValue tokenValueLen).set tokenValueLen Byte.nul

/-- `SimpleLinkHttpServerCallback` with a value that is posted. -/
def Device.post (d : Device) (name value : List Byte) : Device :=
  let tokenName := tokenText name
  let tokenValueLen := min value.length 255
  let tokenValue := tokenText value
  if tokenName = ADD_TOKEN ∧ tokenValue = CString.literal "Add" then
    { d with provisioningDone := true }
  else if tokenName = SECURITY_TOKEN then
    { d with securityType := securityTypeOf tokenValue }
  else
    match fieldNamed tokenName with
    | some field =>
        let array := assign field tokenValue tokenValueLen (d.globals field)
        { d with globals := Function.update d.globals field array }
    | none => d

/-- `initNetwork`, `initConfig` and the branch of `startApplication`. The read of a field may
fail, and then the device has no configuration. -/
def boot (fails : Field → Bool) (file : Option (List Byte)) : Device :=
  let cleared : Globals := fun field => zeros field.maxLen
  match file with
  | none => ⟨.configuration, cleared, .typeOpen, false, none⟩
  | some bytes =>
      let read := config.takeWhile fun field => !fails field
      ⟨if read = config then .application else .configuration,
        readFields Field.size overwrite bytes read 0 cleared, .typeOpen, false, some bytes⟩

/-- How the operations of `saveConfig` end, and how many bytes the file keeps if the power is lost
before it is closed. -/
structure SaveCourse where
  create : Deed
  reopen : Ending
  writes : Field → Writing
  kept : Nat

/-- What becomes of the file in `saveConfig`. -/
def saveConfig (course : SaveCourse) (globals : Globals) (file : Option (List Byte)) :
    Option (List Byte) :=
  let file := if course.create.taken then some [] else file
  if course.create.ending ≠ .done ∨ course.reopen ≠ .done then file
  else some (writeArrays course.kept [] (config.map fun f => (globals f, course.writes f)))

/-- How `saveConfig` ends. -/
def SaveCourse.ending (course : SaveCourse) : Ending :=
  if course.create.ending ≠ .done then course.create.ending
  else if course.reopen ≠ .done then course.reopen
  else ((config.map fun f => (course.writes f).ending).find? (· ≠ .done)).getD .done

/-- The profile that is added for the network. -/
structure Profile where
  ssid : List Byte
  securityType : SecurityType
  key : List Byte
  deriving DecidableEq

/-- What happens to a device. -/
inductive Input where
  /-- A value of the form is posted. -/
  | post (name value : List Byte)
  /-- The form is complete: the device joins the network, or fails to, and saves what it has. -/
  | finish (joins : Bool) (course : SaveCourse) (fails : Field → Bool)
  /-- A factory reset: the file is deleted, unless that fails. -/
  | factoryReset (deleted : Bool) (fails : Field → Bool)
  /-- The power is lost, and comes back. -/
  | powerCycle (fails : Field → Bool)

/-- A device that fails to join, or to save, loops for ever; one that has saved is reset. -/
def deviceStep (d : Device) : Input → Device × Option Profile
  | .post name value => (if d.mode = .configuration then d.post name value else d, none)
  | .finish joins course fails =>
      if d.mode = .configuration ∧ d.provisioningDone then
        if joins then
          let profile : Profile :=
            ⟨stringOf (d.globals .ssid), d.securityType, stringOf (d.globals .securityKey)⟩
          let file := saveConfig course d.globals d.file
          (if course.ending = .failed then { d with mode := .stuck, file } else boot fails file,
            some profile)
        else ({ d with mode := .stuck }, none)
      else (d, none)
  | .factoryReset deleted fails =>
      (if d.mode = .application then boot fails (if deleted then none else d.file) else d, none)
  | .powerCycle fails => (boot fails d.file, none)

/-! ## What a user knows -/

/-- The texts of a device, and those that it has saved. -/
structure Station where
  mode : Mode
  texts : Field → List Byte
  securityType : SecurityType
  done : Bool
  saved : Option (Field → List Byte)

namespace Station

/-- A field has what fits of the text posted last. -/
def post (s : Station) (name value : List Byte) : Station :=
  if tokenText name = ADD_TOKEN ∧ tokenText value = CString.literal "Add" then
    { s with done := true }
  else if tokenText name = SECURITY_TOKEN then
    { s with securityType := securityTypeOf (tokenText value) }
  else
    match fieldNamed (tokenText name) with
    | some field =>
        let text := (tokenText value).bytes.take field.maxLen
        { s with texts := Function.update s.texts field text }
    | none => s

/-- A start with what has been saved: as much of it as is read. -/
def boot (fails : Field → Bool) : Option (Field → List Byte) → Station
  | none => ⟨.configuration, fun _ => [], .typeOpen, false, none⟩
  | some texts =>
      let read := config.takeWhile fun field => !fails field
      ⟨if read = config then .application else .configuration,
        fun field => if field ∈ read then texts field else [], .typeOpen, false, some texts⟩

end Station

/-- What a save leaves: the old file, or so many bytes of the new one. -/
def SaveCourse.surviving (course : SaveCourse) : Option Nat :=
  if course.create.ending ≠ .done then if course.create.taken then some 0 else none
  else if course.reopen ≠ .done then some 0
  else some (survivingBytes course.kept 0
    (config.map fun field => (zeros field.maxLen, course.writes field)))

/-- The texts in the first bytes of the file. -/
def textsWithin (k : Nat) (texts : Field → List Byte) (field : Field) : List Byte :=
  (texts field).take (k - offset Field.size config field)

/-- The texts that are saved behind a save of these. -/
def SaveCourse.leaves (course : SaveCourse) (texts : Field → List Byte)
    (saved : Option (Field → List Byte)) : Option (Field → List Byte) :=
  match course.surviving with
  | none => saved
  | some k => some (textsWithin k texts)

def stationStep (s : Station) : Input → Station × Option Profile
  | .post name value => (if s.mode = .configuration then s.post name value else s, none)
  | .finish joins course fails =>
      if s.mode = .configuration ∧ s.done then
        if joins then
          (if course.ending = .failed then
            { s with mode := .stuck, saved := course.leaves s.texts s.saved }
            else .boot fails (course.leaves s.texts s.saved),
            some ⟨s.texts .ssid, s.securityType, s.texts .securityKey⟩)
        else ({ s with mode := .stuck }, none)
      else (s, none)
  | .factoryReset deleted fails =>
      (if s.mode = .application then .boot fails (if deleted then none else s.saved) else s, none)
  | .powerCycle fails => (.boot fails s.saved, none)

/-- The file has as many bytes as it has of arrays with these texts. -/
inductive Holds : Option (List Byte) → Option (Field → List Byte) → Prop where
  | nothing : Holds none none
  | texts (arrays : Globals) (k : Nat) (terminated : ∀ f : Field, Terminated f.maxLen (arrays f)) :
      Holds (some ((config.flatMap arrays).take k))
        (some (textsWithin k fun field => stringOf (arrays field)))

/-- The device is as the user knows it. -/
structure Shows (d : Device) (s : Station) : Prop where
  mode : d.mode = s.mode
  securityType : d.securityType = s.securityType
  done : d.provisioningDone = s.done
  terminated : ∀ field : Field, Terminated field.maxLen (d.globals field)
  texts : ∀ field, stringOf (d.globals field) = s.texts field
  file : Holds d.file s.saved

/-! ## Arrays -/

/-- A zero that is stored in an array keeps it terminated. -/
theorem terminated_set {n i : Nat} {array : List Byte} (terminated : Terminated n array)
    (inside : i ≤ n) : Terminated n (array.set i Byte.nul) := by
  obtain ⟨front, rfl, rfl⟩ := terminated
  rcases Nat.lt_or_eq_of_le inside with less | rfl
  · exact ⟨front.set i Byte.nul, List.length_set .., List.set_append_left _ _ less⟩
  · refine ⟨front, rfl, ?_⟩
    rw [List.set_append_right _ _ (Nat.le_refl _), Nat.sub_self]
    rfl

/-- The array of a field behind a value that is posted. -/
theorem assign_spec (field : Field) {text : CString} {len : Nat} (enough : text.length ≤ len)
    {array : List Byte} (terminated : Terminated field.maxLen array) :
    Terminated field.maxLen (assign field text len array) ∧
      stringOf (assign field text len array) = text.bytes.take field.maxLen := by
  rw [assign]
  have inside : min len field.maxLen ≤ field.maxLen := Nat.min_le_right ..
  have same : text.bytes.take (min len field.maxLen) = text.bytes.take field.maxLen := by
    rw [List.take_eq_take_iff]
    have : text.bytes.length ≤ len := enough
    omega
  rw [← same]
  generalize min len field.maxLen = n at inside
  have stored : ((text.bytes ++ List.replicate n Byte.nul).take n).length = n := by
    rw [List.length_take, List.length_append, List.length_replicate]
    omega
  refine ⟨terminated_set (terminated.overwrite (stored.le.trans inside)) inside, ?_⟩
  have size := terminated.holdsString.length
  obtain ⟨c, rest, behind⟩ : ∃ c rest, array.drop n = c :: rest :=
    List.exists_cons_of_ne_nil fun none => by
      have := List.drop_eq_nil_iff.mp none
      omega
  have isArray : (strncpy array text n).set n Byte.nul =
      (text.bytes ++ List.replicate n Byte.nul).take n ++ Byte.nul :: rest := by
    rw [strncpy, overwrite, stored, behind, List.set_append_right _ _ (by omega), stored,
      Nat.sub_self]
    rfl
  have noNul : Byte.nul ∉ text.bytes.take n := fun member =>
    text.noNul (List.mem_of_mem_take member)
  have toZero : ∃ back, (strncpy array text n).set n Byte.nul =
      text.bytes.take n ++ Byte.nul :: back := by
    rw [isArray]
    rcases Nat.le_total n text.bytes.length with le | le
    · exact ⟨rest, by rw [List.take_append_of_le_length le]⟩
    · obtain ⟨left, rfl⟩ := Nat.exists_eq_add_of_le le
      refine ⟨List.replicate left Byte.nul ++ rest, ?_⟩
      rw [List.take_length_add_append, List.take_replicate, List.take_of_length_le le,
        Nat.min_eq_left (Nat.le_add_left ..), List.append_assoc, List.append_cancel_left_eq]
      rw [← List.cons_append, ← List.replicate_succ, List.replicate_succ', List.append_assoc]
      rfl
  obtain ⟨back, isText⟩ := toZero
  rw [isText]
  exact CString.ofMemory_append_nul noNul back

/-- An array that is read into zeros, as far as it is there. -/
theorem terminated_overwrite_take {n : Nat} {array : List Byte} (terminated : Terminated n array)
    (k : Nat) : Terminated n (overwrite (zeros n) (array.take k)) := by
  rcases Nat.lt_or_ge n k with all | some
  · have size := terminated.holdsString.length
    rw [List.take_of_length_le (by omega), overwrite_all]
    · exact terminated
    · rw [(zeros_terminated n).holdsString.length, size]
  · exact (zeros_terminated n).overwrite (Nat.le_trans (List.length_take_le ..) some)

theorem string_zeros (n : Nat) : stringOf (zeros n) = [] := by
  rw [zeros, List.replicate_succ]
  exact @CString.ofMemory_append_nul [] List.not_mem_nil _

/-! ## The steps of the device -/

theorem shows_post {d : Device} {s : Station} (shows' : Shows d s) (name value : List Byte) :
    Shows (d.post name value) (s.post name value) := by
  obtain ⟨mode, securityType, done, terminated, texts, file⟩ := shows'
  rw [Device.post, Station.post]
  split
  · exact ⟨mode, securityType, rfl, terminated, texts, file⟩
  split
  · exact ⟨mode, rfl, done, terminated, texts, file⟩
  cases fieldNamed (tokenText name) with
  | none => exact ⟨mode, securityType, done, terminated, texts, file⟩
  | some field =>
      have short : (tokenText value).length ≤ min value.length 255 := by
        have copied : (tokenText value).bytes.length ≤ (value.take 255).length :=
          (List.takeWhile_prefix _).length_le
        rwa [List.length_take, Nat.min_comm] at copied
      obtain ⟨ends, isText⟩ := assign_spec field short (terminated field)
      refine ⟨mode, securityType, done, fun other => ?_, fun other => ?_, file⟩
      · by_cases isField : other = field
        · subst isField
          dsimp only
          rw [Function.update_self]
          exact ends
        · dsimp only
          rw [Function.update_of_ne isField]
          exact terminated other
      · by_cases isField : other = field
        · subst isField
          dsimp only
          rw [Function.update_self, Function.update_self]
          exact isText
        · dsimp only
          rw [Function.update_of_ne isField, Function.update_of_ne isField]
          exact texts other

/-- **A start** reads the texts that have been saved, as far as they are there. -/
theorem shows_boot (fails : Field → Bool) {file : Option (List Byte)}
    {saved : Option (Field → List Byte)} (holds : Holds file saved) :
    Shows (boot fails file) (.boot fails saved) := by
  cases holds with
  | nothing =>
      exact ⟨rfl, rfl, rfl, fun field => zeros_terminated _, fun field => string_zeros _, .nothing⟩
  | texts arrays k terminated =>
      rw [boot, Station.boot]
      generalize isRead : (config.takeWhile fun field => !fails field) = read
      obtain ⟨rest, split⟩ : read <+: config := isRead ▸ List.takeWhile_prefix _
      have distinct : read.Nodup := by
        have all : config.Nodup := by decide
        rw [← split] at all
        exact (List.nodup_append.mp all).1
      have sized : ∀ field, (arrays field).length = Field.size field :=
        fun field => (terminated field).holdsString.length
      have loaded := readFields_cut overwrite sized (rest.flatMap arrays) k read []
        (fun field => zeros field.maxLen) distinct
      have isFile : [] ++ (read.flatMap arrays ++ rest.flatMap arrays) = config.flatMap arrays := by
        rw [List.nil_append, ← List.flatMap_append, split]
      rw [isFile, List.length_nil, Nat.min_zero] at loaded
      rw [loaded]
      refine ⟨rfl, rfl, rfl, fun field => ?_, fun field => ?_, .texts arrays k terminated⟩
      · dsimp only
        split
        · exact terminated_overwrite_take (terminated field) _
        · exact zeros_terminated _
      · dsimp only
        split
        · rename_i member
          have place : offset Field.size read field = offset Field.size config field := by
            rw [← split, offset_append Field.size member]
          refine (string_take ..).trans ?_
          rw [Nat.zero_add, place]
          rfl
        · exact string_zeros _

theorem survivingBytes_congr (kept : Nat) {arrays arrays' : Globals} (writes : Field → Writing)
    (same : ∀ field, (arrays field).length = (arrays' field).length) (list : List Field) :
    ∀ place, survivingBytes kept place (list.map fun f => (arrays f, writes f)) =
      survivingBytes kept place (list.map fun f => (arrays' f, writes f)) := by
  induction list with
  | nil => exact fun _ => rfl
  | cons field list ih =>
      intro place
      rw [List.map_cons, List.map_cons, survivingBytes, survivingBytes, same field, ih]

/-- **A save** leaves the old file, or the texts as far as its bytes are there. -/
theorem holds_save (course : SaveCourse) {globals : Globals} {file : Option (List Byte)}
    {saved : Option (Field → List Byte)} (holds : Holds file saved)
    (terminated : ∀ field : Field, Terminated field.maxLen (globals field)) :
    Holds (saveConfig course globals file)
      (course.leaves (fun field => stringOf (globals field)) saved) := by
  have emptied : Holds (some []) (some (textsWithin 0 fun field => stringOf (globals field))) :=
    .texts globals 0 terminated
  rw [saveConfig, SaveCourse.leaves, SaveCourse.surviving]
  by_cases created : course.create.ending = .done
  · rw [if_neg (not_not.mpr created), if_pos (course.create.holds created)]
    by_cases reopened : course.reopen = .done
    · have sizes : ∀ field : Field, (zeros field.maxLen).length = (globals field).length :=
        fun field => (zeros_terminated _).holdsString.length.trans
          (terminated field).holdsString.length.symm
      have written := writeArrays_eq course.kept
        (config.map fun f => (globals f, course.writes f)) []
      have isFile : [] ++
          ((config.map fun f => (globals f, course.writes f)).map Prod.fst).flatten =
            config.flatMap globals := by
        rw [List.nil_append, List.map_map]
        rfl
      rw [isFile, List.length_nil] at written
      rw [if_neg (not_or.mpr ⟨not_not.mpr created, not_not.mpr reopened⟩),
        if_neg (not_not.mpr reopened), written,
        survivingBytes_congr course.kept course.writes sizes]
      exact .texts globals _ terminated
    · rw [if_pos (.inr reopened), if_pos reopened]
      exact emptied
  · rw [if_pos (.inl created), if_pos created]
    by_cases taken : course.create.taken = true
    · rw [if_pos taken, if_pos taken]
      exact emptied
    · rw [if_neg taken, if_neg taken]
      exact holds

/-- **The device does what the user expects**, whatever happens. -/
theorem shows_step {d : Device} {s : Station} (shows' : Shows d s) (input : Input) :
    Shows (deviceStep d input).1 (stationStep s input).1 ∧
      (deviceStep d input).2 = (stationStep s input).2 := by
  have texts : (fun field => stringOf (d.globals field)) = s.texts := funext shows'.texts
  cases input with
  | post name value =>
      rw [deviceStep, stationStep, shows'.mode]
      refine ⟨?_, rfl⟩
      dsimp only
      split
      · exact shows_post shows' name value
      · exact shows'
  | finish joins course fails =>
      by_cases ready : s.mode = .configuration ∧ s.done = true
      · have ready' : d.mode = .configuration ∧ d.provisioningDone = true :=
          ⟨shows'.mode.trans ready.1, shows'.done.trans ready.2⟩
        rw [deviceStep, if_pos ready', stationStep, if_pos ready]
        cases joins with
        | false =>
            exact ⟨⟨rfl, shows'.securityType, shows'.done, shows'.terminated, shows'.texts,
              shows'.file⟩, rfl⟩
        | true =>
            have holds := holds_save course shows'.file shows'.terminated
            rw [texts] at holds
            rw [if_pos rfl, if_pos rfl]
            refine ⟨?_, ?_⟩
            · dsimp only
              split
              · exact ⟨rfl, shows'.securityType, shows'.done, shows'.terminated, shows'.texts,
                  holds⟩
              · exact shows_boot fails holds
            · rw [shows'.texts, shows'.texts, shows'.securityType]
      · have ready' : ¬ (d.mode = .configuration ∧ d.provisioningDone = true) := by
          rw [shows'.mode, shows'.done]
          exact ready
        rw [deviceStep, if_neg ready', stationStep, if_neg ready]
        exact ⟨shows', rfl⟩
  | factoryReset deleted fails =>
      rw [deviceStep, stationStep, shows'.mode]
      refine ⟨?_, rfl⟩
      dsimp only
      split
      · refine shows_boot fails ?_
        cases deleted with
        | true => exact .nothing
        | false => exact shows'.file
      · exact shows'
  | powerCycle fails => exact ⟨shows_boot fails shows'.file, rfl⟩

/-- Along a history. -/
theorem shows_run (inputs : List Input) : ∀ {d : Device} {s : Station}, Shows d s →
    (run deviceStep d inputs).map Transition.output =
        (run stationStep s inputs).map Transition.output ∧
      Shows (final deviceStep d inputs) (final stationStep s inputs) := by
  induction inputs with
  | nil => exact fun shows' => ⟨rfl, shows'⟩
  | cons input inputs ih =>
      intro d s shows'
      obtain ⟨next, same⟩ := shows_step shows' input
      obtain ⟨others, ends⟩ := ih next
      refine ⟨?_, ends⟩
      rw [run_cons, run_cons, List.map_cons, List.map_cons, others]
      exact congrArg (· :: _) same

/-- **A device follows what its user knows of it.** In every history of a device that starts
without a configuration, with values posted in any order, saves that fail or lose power anywhere,
reads that fail, factory resets and power cycles: the device is in the mode of its `Station`, each
of its arrays is terminated and holds the text of the station, and it adds the same network
profiles. -/
theorem device_follows_station (fails : Field → Bool) (inputs : List Input) :
    (run deviceStep (boot fails none) inputs).map Transition.output =
        (run stationStep (.boot fails none) inputs).map Transition.output ∧
      Shows (final deviceStep (boot fails none) inputs)
        (final stationStep (.boot fails none) inputs) :=
  shows_run inputs (shows_boot fails .nothing)

/-! ## What has been posted -/

/-- The last text posted for a field, if there is one. -/
def lastPosted (posts : List (List Byte × List Byte)) (field : Field) : Option (List Byte) :=
  ((posts.filter fun post => fieldNamed (tokenText post.1) = some field).getLast?).map
    fun post => (tokenText post.2).bytes

def posted (posts : List (List Byte × List Byte)) : List Input :=
  posts.map fun post => .post post.1 post.2

/-- A save and its reset, behind a complete form. -/
def completed (course : SaveCourse) : List Input :=
  [.post ADD_TOKEN.bytes (ascii "Add"), .finish true course fun _ => false]

theorem post_texts (s : Station) (name value : List Byte) :
    (s.post name value).mode = s.mode ∧
      ∀ field, (s.post name value).texts field =
        if fieldNamed (tokenText name) = some field then
          (tokenText value).bytes.take field.maxLen
        else s.texts field := by
  have noField : fieldNamed ADD_TOKEN = none ∧ fieldNamed SECURITY_TOKEN = none := by decide
  rw [Station.post]
  split
  · rename_i isAdd
    rw [isAdd.1, noField.1]
    exact ⟨rfl, fun field => (if_neg (Option.some_ne_none field).symm).symm⟩
  split
  · rename_i isSecurity
    rw [isSecurity, noField.2]
    exact ⟨rfl, fun field => (if_neg (Option.some_ne_none field).symm).symm⟩
  cases fieldNamed (tokenText name) with
  | none => exact ⟨rfl, fun field => (if_neg (Option.some_ne_none field).symm).symm⟩
  | some named =>
      refine ⟨rfl, fun field => ?_⟩
      by_cases same : field = named
      · subst same
        exact (Function.update_self ..).trans (if_pos rfl).symm
      · refine (Function.update_of_ne same ..).trans (if_neg ?_).symm
        exact fun isNamed => same (Option.some.inj isNamed).symm

/-- The texts behind some values. -/
theorem posted_texts (posts : List (List Byte × List Byte)) : ∀ {s : Station},
    s.mode = .configuration → (final stationStep s (posted posts)).mode = .configuration ∧
      ∀ field, (final stationStep s (posted posts)).texts field =
        ((lastPosted posts field).map fun text => text.take field.maxLen).getD
          (s.texts field) := by
  induction posts with
  | nil => exact fun isForm => ⟨isForm, fun field => rfl⟩
  | cons post posts ih =>
      intro s isForm
      obtain ⟨mode, texts⟩ := post_texts s post.1 post.2
      have step : (stationStep s (.post post.1 post.2)).1 = s.post post.1 post.2 := if_pos isForm
      obtain ⟨isForm', others⟩ := ih (mode.trans isForm)
      have run : final stationStep s (posted (post :: posts)) =
          final stationStep (s.post post.1 post.2) (posted posts) := by
        rw [posted, List.map_cons, final_cons, step]
        rfl
      rw [run]
      refine ⟨isForm', fun field => ?_⟩
      rw [others, texts, lastPosted, lastPosted, List.filter_cons]
      by_cases named : fieldNamed (tokenText post.1) = some field
      · rw [if_pos named, if_pos (decide_eq_true named), List.getLast?_cons]
        cases (posts.filter fun post => fieldNamed (tokenText post.1) = some field).getLast? with
        | none => rfl
        | some last => rfl
      · rw [if_neg named, if_neg (fun isTrue => named (of_decide_eq_true isTrue))]

/-- A save that ends well has written everything. -/
theorem surviving_of_done {course : SaveCourse} (saves : course.ending = .done) :
    course.surviving = some 225 := by
  rw [SaveCourse.ending] at saves
  by_cases created : course.create.ending = .done
  swap
  · rw [if_pos created] at saves
    exact absurd saves created
  by_cases reopened : course.reopen = .done
  swap
  · rw [if_neg (not_not.mpr created), if_pos reopened] at saves
    exact absurd saves reopened
  rw [if_neg (not_not.mpr created), if_neg (not_not.mpr reopened)] at saves
  have written : ∀ field ∈ config, (course.writes field).ending = .done := by
    intro field member
    have none : (config.map fun f => (course.writes f).ending).find? (· ≠ .done) = none := by
      rw [Option.eq_none_iff_forall_ne_some]
      intro ending found
      rw [found, Option.getD_some] at saves
      exact absurd saves (by simpa using List.find?_some found)
    have all := List.find?_eq_none.mp none _ (List.mem_map_of_mem member)
    simpa using all
  rw [SaveCourse.surviving, if_neg (not_not.mpr created), if_neg (not_not.mpr reopened)]
  simp only [config, List.forall_mem_cons] at written
  obtain ⟨one, two, three, four, five, -⟩ := written
  simp only [config, List.map_cons, List.map_nil, survivingBytes, one, two, three, four, five]
  rfl

/-- The whole of a text is within the whole of the file. -/
theorem textsWithin_all {texts : Field → List Byte} {field : Field} (member : field ∈ config)
    (short : (texts field).length ≤ field.maxLen) : textsWithin 225 texts field = texts field := by
  have room : ∀ field ∈ config, field.maxLen ≤ 225 - offset Field.size config field := by decide
  exact List.take_of_length_le (short.trans (room field member))

/-- **What has been posted is there again behind the reset.** A device without a configuration is
posted some values in any order, then its form is completed, it joins the network and its save ends
well: behind the reset it is in application mode, and each field of the configuration has the text
that was posted for it last, as much as its array has room for, or nothing if there was none. -/
theorem posted_is_restored (fails : Field → Bool) (posts : List (List Byte × List Byte))
    {course : SaveCourse} (saves : course.ending = .done) :
    (final deviceStep (boot fails none) (posted posts ++ completed course)).mode = .application ∧
      ∀ field ∈ config,
        stringOf ((final deviceStep (boot fails none)
            (posted posts ++ completed course)).globals field) =
          ((lastPosted posts field).getD []).take field.maxLen := by
  have shows' := (shows_run (posted posts ++ completed course) (shows_boot fails .nothing)).2
  obtain ⟨isForm, texts⟩ := posted_texts posts (s := .boot fails none) rfl
  rw [final_append stationStep] at shows'
  generalize final stationStep (.boot fails none) (posted posts) = s at shows' isForm texts
  -- the token that completes the form
  have isAdd : tokenText ADD_TOKEN.bytes = ADD_TOKEN ∧
      tokenText (ascii "Add") = CString.literal "Add" := by decide
  have added : (stationStep s (.post ADD_TOKEN.bytes (ascii "Add"))).1 =
      { s with done := true } := (if_pos isForm).trans (if_pos isAdd)
  have left : course.leaves s.texts s.saved = some (textsWithin 225 s.texts) := by
    rw [SaveCourse.leaves, surviving_of_done saves]
  have notFailed : ¬ course.ending = .failed := by
    rw [saves]
    exact Ending.noConfusion
  have ends : final stationStep s (completed course) =
      .boot (fun _ => false) (some (textsWithin 225 s.texts)) := by
    rw [completed, final_cons, added, final_cons, final_nil, stationStep,
      if_pos ⟨isForm, rfl⟩, if_pos rfl]
    dsimp only
    rw [if_neg notFailed, left]
  have all : (config.takeWhile fun _ => !false) = config := by decide
  rw [ends, Station.boot, all] at shows'
  have toMode : (if config = config then Mode.application else .configuration) = .application :=
    if_pos rfl
  refine ⟨shows'.mode.trans toMode, fun field member => ?_⟩
  have short : (s.texts field).length ≤ field.maxLen := by
    rw [texts field]
    cases lastPosted posts field with
    | none => exact Nat.zero_le _
    | some text => exact List.length_take_le ..
  refine (shows'.texts field).trans ((if_pos member).trans ?_)
  rw [textsWithin_all member short, texts field]
  cases lastPosted posts field with
  | none => exact List.take_nil.symm
  | some text => rfl

/-- Every operation succeeds. -/
def SaveCourse.success : SaveCourse :=
  ⟨⟨true, .done, fun _ => rfl⟩, .done, fun _ => ⟨0, .done⟩, 0⟩

/-- The application id is corrected. -/
def correctedPosts : List (List Byte × List Byte) :=
  [(Field.applicationId.token.bytes, ascii "ap"), (Field.deviceName.token.bytes, ascii "lamp"),
    (Field.applicationId.token.bytes, ascii "app")]

theorem posted_is_restored_corrected :
    (final deviceStep (boot (fun _ => false) none)
        (posted correctedPosts ++ completed .success)).mode = .application ∧
      ∀ field ∈ config,
        stringOf ((final deviceStep (boot (fun _ => false) none)
            (posted correctedPosts ++ completed .success)).globals field) =
          ((lastPosted correctedPosts field).getD []).take field.maxLen :=
  posted_is_restored (fun _ => false) correctedPosts (by decide)

end ParseEmbedded.Rtos.Blink
