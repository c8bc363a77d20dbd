import ParseEmbedded.Unix.Durability

/-!
# Crashes while a value is stored on Unix

`parseOsStoreKey` truncates the file of a key and then writes the value with its terminator. A
crash leaves the file with the bytes that have been written by then, and the next `parseInitialize`
loads what is there. `parseOsLoadKey` neither clears its buffer nor terminates what it has read, so
a file without a terminator in its first 40 bytes is completed by what the buffer held before
(`loads_alone_iff`), and a crash is harmless exactly where there is no such file
(`interrupted_store_iff`).
-/

set_option autoImplicit false

namespace ParseEmbedded.Unix

open SimpleJson Push

/-! ## Loading one value -/

section Loading

variable (homedir : List Byte) (store : KeyStore) (applicationId key : CString)

/-- The bytes of the file of a key that `char temp[40]` has room for. -/
def keyContent : Option (List Byte) :=
  let store := parseOsSetLocalStorageIfNeeded homedir store applicationId
  readFile store.files (keyFile store key) 40

/-- The string that `parseInitialize` finds in `temp` when it has loaded a key, with these bytes on
the stack behind the buffer. -/
def loadedString (temp : Block Byte 40) (behind : List Byte) : List Byte :=
  (CString.ofMemory ((parseOsLoadKey homedir store applicationId key temp.cells).2 ++ behind)).bytes

/-- The value that is loaded depends on the file of the key alone: it is the same from all files in
which this one is the same, whatever was loaded into the buffer before. -/
def LoadsAlone : Prop :=
  ∀ (store' : KeyStore) (temp temp' : Block Byte 40) (behind behind' : List Byte),
    keyContent homedir store' applicationId key = keyContent homedir store applicationId key →
      loadedString homedir store' applicationId key temp' behind' =
        loadedString homedir store applicationId key temp behind

variable {homedir store applicationId key}

theorem loadedString_eq (temp : Block Byte 40) (behind : List Byte) :
    loadedString homedir store applicationId key temp behind =
      (CString.ofMemory (overwrite temp.cells
        ((keyContent homedir store applicationId key).getD [Byte.nul]) ++ behind)).bytes := by
  have some : ¬ temp.cells.length = 0 := by
    rw [temp.length_cells]
    decide
  rw [loadedString, parseOsLoadKey, if_neg some, temp.length_cells, keyContent]
  generalize parseOsSetLocalStorageIfNeeded homedir store applicationId = next
  dsimp only
  cases readFile next.files (keyFile next key) 40 with
  | some bytes => rfl
  | none => rfl

theorem length_keyContent {bytes : List Byte}
    (content : keyContent homedir store applicationId key = some bytes) : bytes.length ≤ 40 := by
  rw [keyContent, readFile] at content
  split at content
  · cases content
    exact Nat.zero_le _
  split at content
  · split at content
    · cases content
      exact List.length_take_le ..
    · cases content
  · cases content

/-- Bytes with a terminator among them hide what is behind them. -/
theorem ofMemory_terminated {bytes : List Byte} (ended : Byte.nul ∈ bytes) (behind : List Byte) :
    CString.ofMemory (bytes ++ behind) = CString.ofMemory bytes := by
  obtain ⟨text, rest, rfl, noNul⟩ := List.eq_append_cons_of_mem ended
  refine CString.ext_bytes ?_
  rw [List.append_assoc, List.cons_append, CString.ofMemory_append_nul noNul,
    CString.ofMemory_append_nul noNul]

/-- **A value depends on its own file alone exactly if its file has a terminator in reach.** -/
theorem loads_alone_iff : LoadsAlone homedir store applicationId key ↔
    ∀ bytes, keyContent homedir store applicationId key = some bytes → Byte.nul ∈ bytes := by
  constructor
  · intro alone bytes content
    by_contra noNul
    -- the buffer holds zeros in one load and no zero in the other
    have same := alone store (Block.fill 40 Byte.nul) (Block.fill 40 1) [Byte.nul] [1] rfl
    have short := length_keyContent content
    have ones : Byte.nul ∉ (List.replicate 40 (1 : Byte)).drop bytes.length ++ [1] := by
      rw [List.drop_replicate, ← List.replicate_succ']
      exact fun member => absurd (List.eq_of_mem_replicate member) (by decide)
    have zeros : (List.replicate 40 Byte.nul).drop bytes.length ++ [Byte.nul] =
        Byte.nul :: List.replicate (40 - bytes.length) Byte.nul := by
      rw [List.drop_replicate, ← List.replicate_succ', List.replicate_succ]
    rw [loadedString_eq, loadedString_eq, content, Option.getD_some] at same
    change (CString.ofMemory (bytes ++ _ ++ _)).bytes =
      (CString.ofMemory (bytes ++ _ ++ _)).bytes at same
    rw [List.append_assoc, List.append_assoc, CString.ofMemory_append noNul,
      CString.ofMemory_append noNul] at same
    have tails := List.append_cancel_left same
    change (CString.ofMemory ((List.replicate 40 (1 : Byte)).drop bytes.length ++ [1])).bytes =
      (CString.ofMemory ((List.replicate 40 Byte.nul).drop bytes.length ++ [Byte.nul])).bytes
        at tails
    rw [CString.ofMemory_bytes ones, zeros] at tails
    exact absurd (congrArg List.length tails) (by simp [CString.ofMemory])
  · intro ended store' temp temp' behind behind' same
    rw [loadedString_eq, loadedString_eq, same]
    have stops : Byte.nul ∈ (keyContent homedir store applicationId key).getD [Byte.nul] := by
      cases content : keyContent homedir store applicationId key with
      | none => exact List.mem_singleton_self _
      | some bytes => exact ended bytes content
    rw [overwrite, overwrite, List.append_assoc, List.append_assoc, ofMemory_terminated stops,
      ofMemory_terminated stops]

end Loading

/-! ## Crashes -/

/-- The files that a crash leaves of `parseOsStoreKey` when the file of the key is open, and so many
bytes have been written. -/
def interruptedStoreKey (homedir : List Byte) (store : KeyStore) (applicationId key value : CString)
    (written : Nat) : Files :=
  let store := parseOsSetLocalStorageIfNeeded homedir store applicationId
  match locateFile store.files (keyFile store key) with
  | some (directory, name) =>
      let opened := store.files.put directory name (.file [])
      opened.put directory name (.file ((value.bytes ++ [Byte.nul]).take written))
  | none => store.files

theorem interrupted_whole {homedir : List Byte} {store : KeyStore}
    {applicationId key value : CString} {written : Nat} (whole : value.length < written) :
    interruptedStoreKey homedir store applicationId key value written =
      (parseOsStoreKey homedir store applicationId key value).files := by
  have all : (value.bytes ++ [Byte.nul]).take written = value.bytes ++ [Byte.nul] := by
    refine List.take_of_length_le ?_
    rw [List.length_append, List.length_singleton]
    exact whole
  rw [interruptedStoreKey, parseOsStoreKey, all]
  generalize parseOsSetLocalStorageIfNeeded homedir store applicationId = next
  dsimp only
  cases locateFile next.files (keyFile next key) with
  | none => rfl
  | some place => rfl

section Crash

variable {home : Home} {store : KeyStore} {applicationId key : CString} {m : KeyMap}

/-- What stands at the file of a key is read. -/
theorem readFile_there {files : Files} (reaches : home.Reaches applicationId key)
    (directory : files.node (home.application applicationId.bytes) = some .directory)
    {content : Option (List Byte)}
    (there : files.node (home.application applicationId.bytes ++ [key.bytes]) =
      content.map .file) (size : Nat) :
    readFile files (home.storePath applicationId.bytes ++ key.bytes) size =
      content.map (List.take size) := by
  have noDirectory : content.map Node.file ≠ some .directory := by
    cases content <;> simp
  rw [readFile, if_neg (by rw [isDirectory_key reaches, there]; exact noDirectory), locateFile,
    if_neg (getLast?_keyPath reaches), locate_key reaches, if_pos directory]
  dsimp only
  rw [there, if_neg noDirectory]
  dsimp only
  rw [there]
  cases content with
  | none => rfl
  | some bytes => rfl

/-- A directory that is there is used as it is. -/
theorem parseGetLocalStore_there {files : Files} (isName : IsName applicationId.bytes)
    (fits : (home.storePath applicationId.bytes).length < PATH_MAX)
    (directory : files.node (home.application applicationId.bytes) = some .directory) :
    parseGetLocalStore home.text files applicationId =
      ⟨files, home.storePath applicationId.bytes⟩ := by
  have package : files.node home.package = some .directory :=
    files.closed _ _ (directory ▸ Option.some_ne_none _)
  have top : files.node (names home.text) = some .directory :=
    files.closed _ _ (package ▸ Option.some_ne_none _)
  have made : mkdir files (home.text ++ ascii "/.parse-embedded/") = files :=
    mkdir_there (home.names_package.trans rfl) home.package_plain package
  rw [parseGetLocalStore_eq files fits, made,
    mkdir_there (home.names_application isName) (home.application_plain isName) directory]

/-- **What a crash leaves.** The file of the key holds the bytes that have been written, and the
other files hold the map. -/
theorem interrupted_nodes (serving : store.Serving home applicationId m)
    (reaches : home.Reaches applicationId key) (value : CString) (written : Nat) :
    ∃ files, home.Keeps files m ∧
      files.node (home.application applicationId.bytes) = some .directory ∧
      (interruptedStoreKey home.text store applicationId key value written).node =
        Function.update files.node (home.application applicationId.bytes ++ [key.bytes])
          (some (.file ((value.bytes ++ [Byte.nul]).take written))) := by
  obtain ⟨keeps, used, made, same⟩ :=
    serving.keeps.setLocalStorage serving.own reaches.application reaches.storePath_fits
  rw [interruptedStoreKey]
  generalize parseOsSetLocalStorageIfNeeded home.text store applicationId = next at *
  have directory := serving.there.directory made same
  have noDirectory : next.files.node (home.application applicationId.bytes ++ [key.bytes]) ≠
      some .directory := by
    rw [keeps.key]
    cases m applicationId.bytes key.bytes <;> simp [valueFile]
  simp only [keyFile_eq reaches used, keeps.locateFile_key reaches, if_pos directory]
  refine ⟨next.files, keeps, directory, ?_⟩
  have opened := next.files.node_put (x := .file []) directory noDirectory
  rw [FileTree.node_put, opened, Function.update_idem]
  · rw [opened, Function.update_of_ne (by simp)]
    exact directory
  · rw [opened, Function.update_self]
    simp

/-- What the next process finds of a key. -/
theorem keyContent_interrupted (serving : store.Serving home applicationId m)
    (reaches : home.Reaches applicationId key) (value : CString) (written : Nat) {other : CString}
    (reachesOther : home.Reaches applicationId other) :
    keyContent home.text
        ⟨interruptedStoreKey home.text store applicationId key value written, []⟩ applicationId
        other =
      if other = key then some (((value.bytes ++ [Byte.nul]).take written).take 40)
      else (m applicationId.bytes other.bytes).map fun text => (text ++ [Byte.nul]).take 40 := by
  obtain ⟨files, keeps, directory, nodes⟩ := interrupted_nodes serving reaches value written
  generalize interruptedStoreKey home.text store applicationId key value written = left at nodes ⊢
  have there : left.node (home.application applicationId.bytes) = some .directory := by
    rw [nodes, Function.update_of_ne (by simp)]
    exact directory
  have set : parseOsSetLocalStorageIfNeeded home.text ⟨left, []⟩ applicationId =
      ⟨left, home.storePath applicationId.bytes⟩ :=
    parseGetLocalStore_there reaches.application reaches.storePath_fits there
  rw [keyContent, set]
  dsimp only
  rw [keyFile_eq reachesOther rfl]
  by_cases same : other = key
  · subst same
    rw [if_pos rfl]
    have content : left.node (home.application applicationId.bytes ++ [other.bytes]) =
        (some ((value.bytes ++ [Byte.nul]).take written)).map .file := by
      rw [nodes, Function.update_self]
      rfl
    exact readFile_there reaches there content 40
  · rw [if_neg same]
    have name : other.bytes ≠ key.bytes := fun h => same (CString.ext_bytes h)
    have content : left.node (home.application applicationId.bytes ++ [other.bytes]) =
        ((m applicationId.bytes other.bytes).map (· ++ [Byte.nul])).map .file := by
      rw [nodes, Function.update_of_ne (by simpa using name), keeps.key, Option.map_map]
      rfl
    rw [readFile_there reachesOther there content, Option.map_map]
    rfl

/-! ## When a crash is harmless -/

/-- The keys that `parseInitialize` loads. -/
def storedKeys : List CString := [PARSE_INSTALLATION_ID, PARSE_SESSION_TOKEN, PARSE_LAST_PUSH_TIME]

theorem Home.Holds.reaches (holds : home.Holds applicationId) {k : CString}
    (stored : k ∈ storedKeys) : home.Reaches applicationId k := by
  rcases List.mem_cons.mp stored with rfl | stored
  · exact holds.installationId
  rcases List.mem_cons.mp stored with rfl | stored
  · exact holds.sessionToken
  · exact List.mem_singleton.mp stored ▸ holds.lastPushTime

variable (applicationId m) in
/-- What a crash while a key is stored may leave of the value of a key: nothing, the old value, or
the new one. -/
def Recovered (key value k : CString) (found : List Byte) : Prop :=
  found = [] ∨ found = m.load applicationId.bytes k.bytes ∨ (k = key ∧ found = value.bytes)

variable (applicationId m) in
/-- The values of a client that starts behind the crash. Where no identifier is found the client may
have made one. -/
structure Recovers (key value : CString) (start : Start) (client : Client) : Prop where
  installationId : Recovered applicationId m key value PARSE_INSTALLATION_ID
      (valueBytes client.installationId) ∨
    client.installationId = some start.outside.around.uuid
  sessionToken : Recovered applicationId m key value PARSE_SESSION_TOKEN
    (valueBytes client.sessionToken)
  lastPushTime : Recovered applicationId m key value PARSE_LAST_PUSH_TIME
    (valueBytes client.lastPushTime)

variable (home applicationId m) in
/-- Whatever the memory holds, the next `parseInitialize` gives an old value, the new one or none
for every key, and loads each of them from its own file alone. -/
def CrashSafe (word : WordSize) (key value : CString) (files : Files) : Prop :=
  (∀ start, Recovers applicationId m key value start
      (parseInitializeWithServerURL word home.text ⟨files, []⟩ applicationId start).client) ∧
    ∀ k ∈ storedKeys, LoadsAlone home.text ⟨files, []⟩ applicationId k

theorem nul_mem_take {text : List Byte} (noNul : Byte.nul ∉ text) (n : Nat) :
    Byte.nul ∈ (text ++ [Byte.nul]).take n ↔ text.length < n := by
  by_cases whole : text.length < n
  · refine iff_of_true ?_ whole
    rw [List.take_of_length_le (by rw [List.length_append, List.length_singleton]; exact whole)]
    exact List.mem_append_right text (List.mem_singleton_self _)
  · refine iff_of_false (fun member => noNul ?_) whole
    rw [List.take_append_of_le_length (Nat.le_of_not_lt whole)] at member
    exact List.mem_of_mem_take member

/-- A key is loaded from its own file alone if its value has been written as a whole and is shorter
than the buffer. -/
theorem loads_alone_interrupted_iff (holds : home.Holds applicationId)
    (serving : store.Serving home applicationId m)
    (strings : ∀ k ∈ storedKeys, Byte.nul ∉ m.load applicationId.bytes k.bytes)
    (stored : key ∈ storedKeys) (value : CString) (written : Nat) {k : CString}
    (isStored : k ∈ storedKeys) :
    LoadsAlone home.text ⟨interruptedStoreKey home.text store applicationId key value written, []⟩
        applicationId k ↔
      if k = key then value.length < written ∧ value.length < 40
      else (m.load applicationId.bytes k.bytes).length < 40 := by
  rw [loads_alone_iff, keyContent_interrupted serving (holds.reaches stored) value written
    (holds.reaches isStored)]
  by_cases same : k = key
  · rw [if_pos same, if_pos same]
    have ended : Byte.nul ∈ (value.bytes ++ [Byte.nul]).take (min 40 written) ↔
        value.length < min 40 written := nul_mem_take value.noNul _
    constructor
    · intro all
      have member := all _ rfl
      rw [List.take_take, ended] at member
      exact ⟨by omega, by omega⟩
    · rintro ⟨whole, short⟩ bytes content
      rw [← Option.some.inj content, List.take_take, ended]
      omega
  · rw [if_neg same, if_neg same]
    have noNul := strings k isStored
    rw [KeyMap.load] at noNul ⊢
    cases held : m applicationId.bytes k.bytes with
    | none =>
        refine iff_of_true (fun bytes content => ?_) (by decide)
        cases content
    | some text =>
        rw [held] at noNul
        have ended := nul_mem_take noNul 40
        constructor
        · exact fun all => ended.mp (all _ rfl)
        · intro short bytes content
          rw [← Option.some.inj content]
          exact ended.mpr short

/-- A value that a completed store leaves: a string that fits the buffer, the old one or the new
one. -/
structure Found (applicationId : CString) (m : KeyMap) (key value k : CString)
    (found : List Byte) : Prop where
  noNul : Byte.nul ∉ found
  short : found.length < 40
  recovered : Recovered applicationId m key value k found

theorem stored_found (strings : ∀ k ∈ storedKeys, Byte.nul ∉ m.load applicationId.bytes k.bytes)
    (value : CString) (short : value.length < 40)
    (others : ∀ k ∈ storedKeys, k ≠ key → (m.load applicationId.bytes k.bytes).length < 40)
    {k : CString} (isStored : k ∈ storedKeys) :
    Found applicationId m key value k
      ((m.store applicationId.bytes key.bytes value.bytes).load applicationId.bytes k.bytes) := by
  by_cases same : k = key
  · subst same
    rw [KeyMap.load_store]
    exact ⟨value.noNul, short, .inr (.inr ⟨rfl, rfl⟩)⟩
  · rw [KeyMap.load_store_other _ _ _ _ _ fun h => same (CString.ext_bytes h)]
    exact ⟨strings k isStored, others k isStored same, .inr (.inl rfl)⟩

theorem valueBytes_restored {value : Option CString} {text : List Byte}
    (same : value.map CString.bytes = if text ≠ [] then some text else none) :
    valueBytes value = text := by
  rw [valueBytes, same]
  split
  · rfl
  · rename_i empty
    exact (not_not.mp empty).symm

/-- What is stored as strings that fit the buffer is loaded as it is. -/
theorem recovers_of_stores (word : WordSize) (holds : home.Holds applicationId) (start : Start)
    {value : CString} {files : Files} {id token time : List Byte}
    (stores : Stores home applicationId ⟨newClient applicationId start, ⟨files, []⟩⟩ id token time)
    (foundId : Found applicationId m key value PARSE_INSTALLATION_ID id)
    (foundToken : Found applicationId m key value PARSE_SESSION_TOKEN token)
    (foundTime : Found applicationId m key value PARSE_LAST_PUSH_TIME time) :
    Recovers applicationId m key value start
      (parseInitializeWithServerURL word home.text ⟨files, []⟩ applicationId start).client := by
  obtain ⟨-, restores⟩ := initialize_restores word holds start stores foundId.noNul
    foundToken.noNul foundTime.noNul foundTime.short
  generalize (parseInitializeWithServerURL word home.text ⟨files, []⟩ applicationId start).client
    = client at restores ⊢
  obtain ⟨restoredId, restoredToken, restoredTime⟩ := restores
  have whole : ∀ {text behind : List Byte}, text.length < 40 → restored text behind = text :=
    fun short => if_pos short
  rw [whole foundId.short] at restoredId
  rw [whole foundToken.short] at restoredToken
  refine ⟨?_, (valueBytes_restored restoredToken).symm ▸ foundToken.recovered,
    (valueBytes_restored restoredTime).symm ▸ foundTime.recovered⟩
  by_cases some : id ≠ []
  · rw [if_pos some] at restoredId
    have same : valueBytes client.installationId = id := by rw [valueBytes, restoredId]; rfl
    exact Or.inl (same.symm ▸ foundId.recovered)
  rw [if_neg some] at restoredId
  by_cases someToken : token ≠ []
  · rw [if_pos someToken] at restoredId
    exact Or.inr (bytes_injective restoredId)
  · rw [if_neg someToken] at restoredId
    exact Or.inl (Or.inl (by rw [valueBytes, restoredId]; rfl))

/-- **When a crash in `parseOsStoreKey` is harmless**: if the value and its terminator have been
written, and none of the values that are loaded fills the buffer. -/
theorem interrupted_store_iff (word : WordSize) (holds : home.Holds applicationId)
    (serving : store.Serving home applicationId m)
    (strings : ∀ k ∈ storedKeys, Byte.nul ∉ m.load applicationId.bytes k.bytes)
    (stored : key ∈ storedKeys) (value : CString) (written : Nat) :
    CrashSafe home applicationId m word key value
        (interruptedStoreKey home.text store applicationId key value written) ↔
      (value.length < written ∧ value.length < 40) ∧
        ∀ k ∈ storedKeys, k ≠ key → (m.load applicationId.bytes k.bytes).length < 40 := by
  have alone := fun k isStored =>
    loads_alone_interrupted_iff holds serving strings stored value written (k := k) isStored
  constructor
  · rintro ⟨-, loads⟩
    refine ⟨?_, fun k isStored other => ?_⟩
    · have own := (alone key stored).mp (loads key stored)
      rw [if_pos rfl] at own
      exact own
    · have others := (alone k isStored).mp (loads k isStored)
      rw [if_neg other] at others
      exact others
  · rintro ⟨⟨whole, short⟩, others⟩
    refine ⟨fun start => ?_, fun k isStored => ?_⟩
    · have next := serving.storeKey (holds.reaches stored) value
      rw [interrupted_whole whole]
      generalize parseOsStoreKey home.text store applicationId key value = left at next ⊢
      have found := fun k isStored => stored_found strings value short others (k := k) isStored
      refine recovers_of_stores word holds start
        ⟨rfl, _, ⟨next.keeps, Or.inl rfl, ?_⟩, rfl, rfl, rfl⟩
        (found _ ?_) (found _ ?_) (found _ ?_)
      · exact fun used => absurd rfl used
      all_goals decide
    · rw [alone k isStored]
      split
      · exact ⟨whole, short⟩
      · rename_i other
        exact others k isStored other

end Crash

section Example

theorem exampleFiles_serving :
    (⟨exampleFiles, []⟩ : KeyStore).Serving exampleHome exampleApplication .empty :=
  ⟨exampleFiles_fresh, Or.inl rfl, fun used => absurd rfl used⟩

/-- The identifier `i` is stored. -/
def exampleStored : KeyStore :=
  parseOsStoreKey exampleHome.text ⟨exampleFiles, []⟩ exampleApplication PARSE_INSTALLATION_ID
    (CString.literal "i")

/-- The token `old` is stored too. -/
def tokenStored : KeyStore :=
  parseOsStoreKey exampleHome.text exampleStored exampleApplication PARSE_SESSION_TOKEN
    (CString.literal "old")

def tokenMap : KeyMap :=
  (KeyMap.empty.store exampleApplication.bytes PARSE_INSTALLATION_ID.bytes (ascii "i")).store
    exampleApplication.bytes PARSE_SESSION_TOKEN.bytes (ascii "old")

theorem tokenStored_serving : tokenStored.Serving exampleHome exampleApplication tokenMap :=
  (exampleFiles_serving.storeKey (exampleHome_holds.reaches (by decide)) _).storeKey
    (exampleHome_holds.reaches (by decide)) _

/-- Over the token `old` the token `new` is stored: a crash behind its last byte is harmless, and
one in front of its terminator is not. -/
theorem interrupted_store_example :
    CrashSafe exampleHome exampleApplication tokenMap .bits32 PARSE_SESSION_TOKEN
        (CString.literal "new")
        (interruptedStoreKey exampleHome.text tokenStored exampleApplication PARSE_SESSION_TOKEN
          (CString.literal "new") 4) ∧
      ¬ CrashSafe exampleHome exampleApplication tokenMap .bits32 PARSE_SESSION_TOKEN
        (CString.literal "new")
        (interruptedStoreKey exampleHome.text tokenStored exampleApplication PARSE_SESSION_TOKEN
          (CString.literal "new") 3) := by
  have exactly := interrupted_store_iff .bits32 exampleHome_holds tokenStored_serving
    (by decide) (by decide : PARSE_SESSION_TOKEN ∈ storedKeys) (CString.literal "new")
  exact ⟨(exactly 4).mpr (by decide), fun safe => absurd ((exactly 3).mp safe).1.1 (by decide)⟩

/-- A crash right behind the `open` for the token: the identifier is loaded as the token. -/
theorem interrupted_store_counterexample :
    ¬ CrashSafe exampleHome exampleApplication
      (KeyMap.empty.store exampleApplication.bytes PARSE_INSTALLATION_ID.bytes (ascii "i")) .bits32
      PARSE_SESSION_TOKEN (CString.literal "t")
      (interruptedStoreKey exampleHome.text exampleStored exampleApplication PARSE_SESSION_TOKEN
        (CString.literal "t") 0) := by
  rintro ⟨recovers, -⟩
  have token := (recovers exampleStart).sessionToken
  have loaded : valueBytes (parseInitializeWithServerURL .bits32 exampleHome.text
      ⟨interruptedStoreKey exampleHome.text exampleStored exampleApplication PARSE_SESSION_TOKEN
        (CString.literal "t") 0, []⟩ exampleApplication exampleStart).client.sessionToken =
      ascii "i" := by
    decide +kernel
  rw [loaded] at token
  rcases token with empty | old | ⟨-, new⟩
  · exact absurd empty (by decide)
  · exact absurd old (by decide)
  · exact absurd new (by decide)

end Example

end ParseEmbedded.Unix
