import ParseEmbedded.Library.FileTree
import ParseEmbedded.Library.Runs
import ParseEmbedded.SimpleJson.Processor

/-!
# The key store on Unix

The functions of `parse_os.c` that keep a value for each application and key, in a file of the
directory of the application. The directory is computed once in the life of a process, from the
application it is first asked for, and kept in the static `parse_local_store`.

File operations succeed whenever the directory of the file is there. A path is resolved name by
name, as the kernel does it: empty names are skipped, and `.` and `..` are not names of entries.

What the store is for is a `KeyMap`. `Keeps` says that the files hold such a map, and each
operation has one lemma that says what it makes of the files and of the map.
-/

set_option autoImplicit false

namespace ParseEmbedded.Unix

open SimpleJson Runs

/-! ## Paths -/

abbrev PATH_MAX : Nat := 4096

/-- The names of a path, with these bytes of the first name already read. -/
def namesFrom (current : List Byte) : List Byte → List (List Byte)
  | [] => if current = [] then [] else [current]
  | c :: path =>
      if c = Byte.slash then
        if current = [] then namesFrom [] path else current :: namesFrom [] path
      else namesFrom (current ++ [c]) path

/-- The names that slashes separate. -/
def names (path : List Byte) : List (List Byte) := namesFrom [] path

def pathStep (name : List Byte) : PathStep (List Byte) :=
  if name = ascii "." then .stay else if name = ascii ".." then .up else .down name

/-- The directories and files, with names and contents of bytes. -/
abbrev Files := FileTree (List Byte) (List Byte)

/-- The directory and the name that a path stands for, if the directory is there. -/
def locate (files : Files) (path : List Byte) : Option (List (List Byte) × List Byte) :=
  match (names path).getLast? with
  | none => none
  | some name =>
      match pathStep name with
      | .down name =>
          (files.walk [] ((names path).dropLast.map pathStep)).map fun directory =>
            (directory, name)
      | _ => none

/-! ## File operations -/

def mkdir (files : Files) (path : List Byte) : Files :=
  match locate files path with
  | some (directory, name) =>
      match files.node (directory ++ [name]) with
      | none => files.put directory name .directory
      | some _ => files
  | none => files

/-- The directory and the name that `open` finds for a file. A path that ends in a slash is none
of a file. -/
def locateFile (files : Files) (path : List Byte) : Option (List (List Byte) × List Byte) :=
  if path.getLast? = some Byte.slash then none
  else
    match locate files path with
    | some (directory, name) =>
        if files.node (directory ++ [name]) = some .directory then none
        else some (directory, name)
    | none => none

/-- The path is the one of a directory. -/
def IsDirectory (files : Files) (path : List Byte) : Prop :=
  files.walk [] ((names path).map pathStep) ≠ none

instance (files : Files) (path : List Byte) : Decidable (IsDirectory files path) :=
  inferInstanceAs (Decidable (_ ≠ _))

/-- `open` for reading, and `read` of at most `size` bytes. A directory is opened, and `read` takes
nothing from it. -/
def readFile (files : Files) (path : List Byte) (size : Nat) : Option (List Byte) :=
  if IsDirectory files path then some []
  else
    match locateFile files path with
    | some (directory, name) =>
        match files.node (directory ++ [name]) with
        | some (.file content) => some (content.take size)
        | _ => none
    | none => none

/-- `remove` of a file, or of an empty directory. -/
def remove (files : Files) (path : List Byte) : Files :=
  match locate files path with
  | some (directory, name) =>
      if path.getLast? = some Byte.slash ∧
          files.node (directory ++ [name]) ≠ some .directory then files
      else files.erase directory name
  | none => files

/-! ## The source -/

/-- `PACKAGE_NAME` of `config.h`. -/
def PACKAGE_NAME : List Byte := ascii "parse-embedded"

/-- The files of the device, and the static buffer of the process. -/
structure KeyStore where
  files : Files
  parse_local_store : List Byte

/-- `strncat(buffer, text, PATH_MAX - strlen(buffer) - 1)` -/
def appendPath (buffer text : List Byte) : List Byte :=
  strncat buffer text (PATH_MAX - buffer.length - 1)

def parseCreateDir (files : Files) (dir : List Byte) : Files := mkdir files dir

def parseGetLocalStore (homedir : List Byte) (files : Files) (applicationId : CString) :
    KeyStore :=
  let buffer := homedir.take PATH_MAX
  let buffer := appendPath (appendPath (appendPath buffer (ascii "/.")) PACKAGE_NAME) (ascii "/")
  let files := parseCreateDir files buffer
  let buffer := appendPath (appendPath buffer applicationId.bytes) (ascii "/")
  ⟨parseCreateDir files buffer, buffer⟩

def parseOsSetLocalStorageIfNeeded (homedir : List Byte) (store : KeyStore)
    (applicationId : CString) : KeyStore :=
  if store.parse_local_store = [] then parseGetLocalStore homedir store.files applicationId
  else store

/-- `key_file` -/
def keyFile (store : KeyStore) (key : CString) : List Byte :=
  appendPath (appendPath [] store.parse_local_store) key.bytes

def parseOsStoreKey (homedir : List Byte) (store : KeyStore) (applicationId key value : CString) :
    KeyStore :=
  let store := parseOsSetLocalStorageIfNeeded homedir store applicationId
  match locateFile store.files (keyFile store key) with
  | some (directory, name) =>
      -- `O_CREAT | O_TRUNC`, and then the value with its terminator
      let opened := store.files.put directory name (.file [])
      { store with files := opened.put directory name (.file (value.bytes ++ [Byte.nul])) }
  | none => store

/-- The value buffer is as large as `size` says. -/
def parseOsLoadKey (homedir : List Byte) (store : KeyStore) (applicationId key : CString)
    (value : List Byte) : KeyStore × List Byte :=
  if value.length = 0 then (store, value)
  else
    let store := parseOsSetLocalStorageIfNeeded homedir store applicationId
    match readFile store.files (keyFile store key) value.length with
    | some bytes => (store, overwrite value bytes)
    | none => (store, overwrite value [Byte.nul])

def parseOsClearKey (homedir : List Byte) (store : KeyStore) (applicationId key : CString) :
    KeyStore :=
  let store := parseOsSetLocalStorageIfNeeded homedir store applicationId
  { store with files := remove store.files (keyFile store key) }

/-- Removes a directory with what is in it, for so many levels of directories. A path of
`FILENAME_MAX` bytes has no more of them, and `opendir` and `remove` fail where there is none. -/
def parseOsRemoveDir : Nat → Files → List (List Byte) → List Byte → Files
  | 0, files, _, _ => files
  | levels + 1, files, parent, dir =>
      let removeEntry (files : Files) (name : List Byte) : Files :=
        if files.node (parent ++ [dir] ++ [name]) = some .directory then
          parseOsRemoveDir levels files (parent ++ [dir]) name
        else files.erase (parent ++ [dir]) name
      if files.node (parent ++ [dir]) = some .directory then
        ((files.entries (parent ++ [dir])).foldl removeEntry files).erase parent dir
      else files

def parseOsClearAll (homedir : List Byte) (store : KeyStore) (applicationId : CString) :
    KeyStore :=
  let store := parseOsSetLocalStorageIfNeeded homedir store applicationId
  match locate store.files store.parse_local_store with
  | some (parent, dir) =>
      { store with files := parseOsRemoveDir PATH_MAX store.files parent dir }
  | none => store

/-! ## What the store is for -/

/-- The values that are stored, by application and key. -/
abbrev KeyMap := List Byte → List Byte → Option (List Byte)

namespace KeyMap

def empty : KeyMap := fun _ _ => none

def store (m : KeyMap) (applicationId key value : List Byte) : KeyMap := fun a k =>
  if a = applicationId ∧ k = key then some value else m a k

def clear (m : KeyMap) (applicationId key : List Byte) : KeyMap := fun a k =>
  if a = applicationId ∧ k = key then none else m a k

def clearAll (m : KeyMap) (applicationId : List Byte) : KeyMap := fun a k =>
  if a = applicationId then none else m a k

/-- The string that a load yields. -/
def load (m : KeyMap) (applicationId key : List Byte) : List Byte :=
  (m applicationId key).getD []

variable (m : KeyMap) (a key other value : List Byte)

@[simp] theorem load_store : (m.store a key value).load a key = value := by
  simp [store, load]

theorem load_store_other (ne : other ≠ key) :
    (m.store a key value).load a other = m.load a other := by
  simp [store, load, ne]

@[simp] theorem load_clear : (m.clear a key).load a key = [] := by
  simp [clear, load]

theorem load_clear_other (ne : other ≠ key) :
    (m.clear a key).load a other = m.load a other := by
  simp [clear, load, ne]

end KeyMap

/-! ## Names -/

/-- A name that an entry of a directory can have. -/
structure IsName (name : List Byte) : Prop where
  nonempty : name ≠ []
  noSlash : Byte.slash ∉ name
  noDot : name ≠ ascii "."
  noDots : name ≠ ascii ".."

instance (name : List Byte) : Decidable (IsName name) :=
  decidable_of_iff
    (name ≠ [] ∧ Byte.slash ∉ name ∧ name ≠ ascii "." ∧ name ≠ ascii "..")
    ⟨fun h => ⟨h.1, h.2.1, h.2.2.1, h.2.2.2⟩, fun h => ⟨h.1, h.2, h.3, h.4⟩⟩

theorem pathStep_name {name : List Byte} (isName : IsName name) :
    pathStep name = .down name := by
  rw [pathStep, if_neg isName.noDot, if_neg isName.noDots]

theorem map_pathStep {path : List (List Byte)} (plain : ∀ name ∈ path, IsName name) :
    path.map pathStep = path.map .down :=
  List.map_congr_left fun name member => pathStep_name (plain name member)

theorem namesFrom_slash (path : List Byte) : ∀ (current before : List Byte),
    namesFrom current (before ++ Byte.slash :: path) = namesFrom current before ++ names path := by
  intro current before
  induction before generalizing current with
  | nil =>
      rw [List.nil_append]
      simp only [namesFrom, ↓reduceIte]
      split <;> rfl
  | cons c before ih =>
      rw [List.cons_append, namesFrom, namesFrom]
      by_cases slash : c = Byte.slash
      · rw [if_pos slash, if_pos slash]
        split
        · exact ih []
        · rw [ih [], List.cons_append]
      · rw [if_neg slash, if_neg slash]
        exact ih _

theorem names_slash (before path : List Byte) :
    names (before ++ Byte.slash :: path) = names before ++ names path :=
  namesFrom_slash path [] before

theorem namesFrom_noSlash {name : List Byte} (noSlash : Byte.slash ∉ name) :
    ∀ current : List Byte,
      namesFrom current name = if current ++ name = [] then [] else [current ++ name] := by
  induction name with
  | nil =>
      intro current
      rw [namesFrom, List.append_nil]
  | cons c name ih =>
      intro current
      rw [List.mem_cons, not_or] at noSlash
      rw [namesFrom, if_neg (Ne.symm noSlash.1), ih noSlash.2]
      simp

theorem names_name {name : List Byte} (isName : IsName name) : names name = [name] := by
  rw [names, namesFrom_noSlash isName.noSlash, List.nil_append, if_neg isName.nonempty]

/-! ## Where things stand -/

/-- A home directory: the path of a directory, without `.` and `..`. -/
structure Home where
  text : List Byte
  plain : ∀ name ∈ names text, IsName name

namespace Home

variable (home : Home)

/-- The directory of the package. -/
def package : List (List Byte) := names home.text ++ [ascii ".parse-embedded"]

/-- The directory of an application. -/
def application (a : List Byte) : List (List Byte) := home.package ++ [a]

/-- The path of the directory of an application. -/
def storePath (a : List Byte) : List Byte :=
  home.text ++ (ascii "/.parse-embedded/" ++ (a ++ ascii "/"))

/-- The path of the file of a key fits in a buffer. -/
def Fits (a key : List Byte) : Prop := (home.storePath a ++ key).length < PATH_MAX

theorem isName_package : IsName (ascii ".parse-embedded") :=
  ⟨by decide, by decide, by decide, by decide⟩

theorem package_plain : ∀ name ∈ home.package, IsName name := by
  refine List.forall_mem_append.mpr ⟨home.plain, List.forall_mem_singleton.mpr ?_⟩
  exact isName_package

theorem application_plain {a : List Byte} (isName : IsName a) :
    ∀ name ∈ home.application a, IsName name :=
  List.forall_mem_append.mpr ⟨home.package_plain, List.forall_mem_singleton.mpr isName⟩

theorem names_package : names (home.text ++ ascii "/.parse-embedded/") = home.package := by
  have cut : home.text ++ ascii "/.parse-embedded/" =
      home.text ++ Byte.slash :: (ascii ".parse-embedded" ++ Byte.slash :: []) := rfl
  rw [cut, names_slash, names_slash, names_name isName_package]
  rfl

theorem names_storePath {a : List Byte} (isName : IsName a) (key : List Byte) :
    names (home.storePath a ++ key) = home.application a ++ names key := by
  have cut : home.storePath a ++ key =
      home.text ++ Byte.slash :: (ascii ".parse-embedded" ++ Byte.slash ::
        (a ++ Byte.slash :: key)) := by
    simp only [storePath, List.append_assoc]
    rfl
  rw [cut, names_slash, names_slash, names_slash, names_name isName_package, names_name isName]
  simp [application, package]

theorem names_application {a : List Byte} (isName : IsName a) :
    names (home.storePath a) = home.package ++ [a] := by
  have := home.names_storePath isName []
  simpa [names, namesFrom, application] using this

end Home

/-- The file of a value. -/
def valueFile (value : List Byte) : Node (List Byte) := .file (value ++ [Byte.nul])

/-- The files hold the map: the home directory is there, and the entries in the directory of an
application, if that is there, are the files of its keys. -/
structure Home.Keeps (home : Home) (files : Files) (m : KeyMap) : Prop where
  directory : files.node (names home.text) = some .directory
  package : files.node home.package = none ∨ files.node home.package = some .directory
  application : ∀ a, files.node (home.application a) = none ∨
    files.node (home.application a) = some .directory
  key : ∀ a k, files.node (home.application a ++ [k]) = (m a k).map valueFile

/-! ## Finding a path -/

theorem locate_eq {files : Files} {path : List Byte} {p : List (List Byte)} {n : List Byte}
    (split : names path = p ++ [n]) (plain : ∀ name ∈ p ++ [n], IsName name) :
    locate files path = if files.node p = some .directory then some (p, n) else none := by
  obtain ⟨front, last⟩ := List.forall_mem_append.mp plain
  have name : IsName n := last n (List.mem_singleton_self n)
  rw [locate, split, List.getLast?_concat, List.dropLast_concat]
  dsimp only
  rw [pathStep_name name]
  dsimp only
  rw [map_pathStep front, files.walk_down p files.root, List.nil_append]
  split <;> rfl

theorem node_mkdir {files : Files} {path : List Byte} {p : List (List Byte)} {n : List Byte}
    (split : names path = p ++ [n]) (plain : ∀ name ∈ p ++ [n], IsName name)
    (parent : files.node p = some .directory) :
    (mkdir files path).node =
      if files.node (p ++ [n]) = none then
        Function.update files.node (p ++ [n]) (some .directory)
      else files.node := by
  rw [mkdir, locate_eq split plain, if_pos parent]
  dsimp only
  cases there : files.node (p ++ [n]) with
  | none =>
      rw [if_pos rfl]
      exact files.node_put parent (by rw [there]; exact (Option.some_ne_none _).symm)
  | some node => rw [if_neg (Option.some_ne_none node)]

theorem mkdir_there {files : Files} {path : List Byte} {p : List (List Byte)} {n : List Byte}
    (split : names path = p ++ [n]) (plain : ∀ name ∈ p ++ [n], IsName name)
    (there : files.node (p ++ [n]) = some .directory) : mkdir files path = files := by
  have parent : files.node p = some .directory :=
    files.closed _ _ (there ▸ Option.some_ne_none _)
  rw [mkdir, locate_eq split plain, if_pos parent]
  dsimp only
  rw [there]

/-- Bounded appends that fit are appends. -/
theorem appendPath_eq {buffer text : List Byte} (fits : (buffer ++ text).length < PATH_MAX) :
    appendPath buffer text = buffer ++ text := by
  rw [List.length_append] at fits
  rw [appendPath, strncat, List.take_of_length_le (by omega)]

theorem appendPath_appendPath {buffer first second : List Byte}
    (fits : (buffer ++ first ++ second).length < PATH_MAX) :
    appendPath (appendPath buffer first) second = buffer ++ first ++ second := by
  have front : (buffer ++ first).length < PATH_MAX := by
    rw [List.length_append] at fits
    omega
  rw [appendPath_eq front, appendPath_eq fits]

/-! ## The directory of the application -/

section Operations

variable {home : Home} {store : KeyStore} {m : KeyMap} {applicationId : CString}

/-- The process has used no other application. -/
def KeyStore.Own (home : Home) (store : KeyStore) (applicationId : CString) : Prop :=
  store.parse_local_store = [] ∨ store.parse_local_store = home.storePath applicationId.bytes

/-- The directory of the application has not been taken away since the process used it. -/
def KeyStore.There (home : Home) (store : KeyStore) (applicationId : CString) : Prop :=
  store.parse_local_store ≠ [] →
    store.files.node (home.application applicationId.bytes) = some .directory

instance : Decidable (store.Own home applicationId) := inferInstanceAs (Decidable (_ ∨ _))

instance : Decidable (store.There home applicationId) := inferInstanceAs (Decidable (_ → _))

/-- Making a directory that is not there yet changes no file. -/
theorem Home.Keeps.makePackage {files : Files} (keeps : home.Keeps files m) :
    home.Keeps (mkdir files (home.text ++ ascii "/.parse-embedded/")) m ∧
      (mkdir files (home.text ++ ascii "/.parse-embedded/")).node home.package =
        some .directory := by
  have nodes := node_mkdir (home.names_package.trans rfl) home.package_plain keeps.directory
  change _ = (if files.node home.package = none then
    Function.update files.node home.package (some .directory) else files.node) at nodes
  by_cases there : files.node home.package = none
  · rw [if_pos there] at nodes
    refine ⟨⟨?_, ?_, fun a => ?_, fun a k => ?_⟩, ?_⟩
    · rw [nodes, Function.update_of_ne (by simp [Home.package])]
      exact keeps.directory
    · rw [nodes, Function.update_self]
      exact Or.inr rfl
    · rw [nodes, Function.update_of_ne (by simp [Home.application])]
      exact keeps.application a
    · rw [nodes, Function.update_of_ne (by simp [Home.application])]
      exact keeps.key a k
    · rw [nodes, Function.update_self]
  · rw [if_neg there] at nodes
    have directory := keeps.package.resolve_left there
    refine ⟨⟨?_, ?_, fun a => ?_, fun a k => ?_⟩, ?_⟩
    · exact nodes ▸ keeps.directory
    · exact nodes ▸ keeps.package
    · exact nodes ▸ keeps.application a
    · exact nodes ▸ keeps.key a k
    · exact nodes ▸ directory

theorem Home.Keeps.makeApplication {files : Files} (keeps : home.Keeps files m)
    (parent : files.node home.package = some .directory) {a : List Byte} (isName : IsName a) :
    home.Keeps (mkdir files (home.storePath a)) m ∧
      (mkdir files (home.storePath a)).node (home.application a) = some .directory := by
  have nodes := node_mkdir (home.names_application isName) (home.application_plain isName) parent
  change _ = (if files.node (home.application a) = none then
    Function.update files.node (home.application a) (some .directory) else files.node) at nodes
  by_cases there : files.node (home.application a) = none
  · rw [if_pos there] at nodes
    refine ⟨⟨?_, ?_, fun b => ?_, fun b k => ?_⟩, ?_⟩
    · rw [nodes, Function.update_of_ne (by simp [Home.application, Home.package])]
      exact keeps.directory
    · rw [nodes, Function.update_of_ne (by simp [Home.application])]
      exact keeps.package
    · by_cases same : home.application b = home.application a
      · rw [nodes, same, Function.update_self]
        exact Or.inr rfl
      · rw [nodes, Function.update_of_ne same]
        exact keeps.application b
    · rw [nodes, Function.update_of_ne (by simp [Home.application])]
      exact keeps.key b k
    · rw [nodes, Function.update_self]
  · rw [if_neg there] at nodes
    have directory := (keeps.application a).resolve_left there
    refine ⟨⟨?_, ?_, fun b => ?_, fun b k => ?_⟩, ?_⟩
    · exact nodes ▸ keeps.directory
    · exact nodes ▸ keeps.package
    · exact nodes ▸ keeps.application b
    · exact nodes ▸ keeps.key b k
    · exact nodes ▸ directory

theorem parseGetLocalStore_eq (files : Files)
    (fits : (home.storePath applicationId.bytes).length < PATH_MAX) :
    parseGetLocalStore home.text files applicationId =
      ⟨mkdir (mkdir files (home.text ++ ascii "/.parse-embedded/"))
          (home.storePath applicationId.bytes),
        home.storePath applicationId.bytes⟩ := by
  have whole : home.storePath applicationId.bytes =
      home.text ++ ascii "/.parse-embedded/" ++ applicationId.bytes ++ ascii "/" := by
    simp [Home.storePath]
  have package : (home.text ++ ascii "/.parse-embedded/").length < PATH_MAX := by
    rw [whole, List.length_append, List.length_append] at fits
    omega
  have short : home.text.length ≤ PATH_MAX := by
    rw [List.length_append] at package
    omega
  have cut : home.text ++ ascii "/." ++ PACKAGE_NAME ++ ascii "/" =
      home.text ++ ascii "/.parse-embedded/" := by
    simp only [List.append_assoc]
    rfl
  have first : appendPath (appendPath (appendPath (home.text.take PATH_MAX) (ascii "/."))
      PACKAGE_NAME) (ascii "/") = home.text ++ ascii "/.parse-embedded/" := by
    rw [← cut] at package ⊢
    have front : (home.text ++ ascii "/." ++ PACKAGE_NAME).length < PATH_MAX := by
      rw [List.length_append] at package
      omega
    rw [List.take_of_length_le short, appendPath_appendPath front, appendPath_eq package]
  have second : appendPath (appendPath (home.text ++ ascii "/.parse-embedded/")
      applicationId.bytes) (ascii "/") = home.storePath applicationId.bytes := by
    rw [whole] at fits ⊢
    exact appendPath_appendPath fits
  simp only [parseGetLocalStore, parseCreateDir, first, second]

/-- **What a process makes of its static directory.** The directory of the application is used;
it is made if the process has not used it before. -/
theorem Home.Keeps.setLocalStorage (keeps : home.Keeps store.files m)
    (own : store.Own home applicationId) (isName : IsName applicationId.bytes)
    (fits : (home.storePath applicationId.bytes).length < PATH_MAX) :
    home.Keeps (parseOsSetLocalStorageIfNeeded home.text store applicationId).files m ∧
      (parseOsSetLocalStorageIfNeeded home.text store applicationId).parse_local_store =
        home.storePath applicationId.bytes ∧
      (store.parse_local_store = [] →
        (parseOsSetLocalStorageIfNeeded home.text store applicationId).files.node
          (home.application applicationId.bytes) = some .directory) ∧
      (store.parse_local_store ≠ [] →
        parseOsSetLocalStorageIfNeeded home.text store applicationId = store) := by
  rw [parseOsSetLocalStorageIfNeeded]
  by_cases unused : store.parse_local_store = []
  · rw [if_pos unused, parseGetLocalStore_eq _ fits]
    obtain ⟨made, package⟩ := keeps.makePackage
    obtain ⟨made, application⟩ := made.makeApplication package isName
    exact ⟨made, rfl, fun _ => application, fun used => absurd unused used⟩
  · rw [if_neg unused]
    exact ⟨keeps, own.resolve_left unused, fun h => absurd h unused, fun _ => rfl⟩

theorem KeyStore.There.directory {next : KeyStore} (there : store.There home applicationId)
    (made : store.parse_local_store = [] →
      next.files.node (home.application applicationId.bytes) = some .directory)
    (same : store.parse_local_store ≠ [] → next = store) :
    next.files.node (home.application applicationId.bytes) = some .directory := by
  by_cases unused : store.parse_local_store = []
  · exact made unused
  · rw [same unused]
    exact there unused

/-! ## The files of the keys -/

/-- The key of a call can be the name of a file, whose path fits. -/
structure Home.Reaches (home : Home) (applicationId key : CString) : Prop where
  application : IsName applicationId.bytes
  name : IsName key.bytes
  fits : home.Fits applicationId.bytes key.bytes

instance (key : CString) : Decidable (home.Reaches applicationId key) :=
  decidable_of_iff
    (IsName applicationId.bytes ∧ IsName key.bytes ∧
      (home.storePath applicationId.bytes ++ key.bytes).length < PATH_MAX)
    ⟨fun h => ⟨h.1, h.2.1, h.2.2⟩, fun h => ⟨h.1, h.2, h.3⟩⟩

theorem Home.Reaches.storePath_fits {key : CString} (reaches : home.Reaches applicationId key) :
    (home.storePath applicationId.bytes).length < PATH_MAX := by
  have fits := reaches.fits
  rw [Home.Fits, List.length_append] at fits
  omega

theorem keyFile_eq {key : CString} (reaches : home.Reaches applicationId key)
    (used : store.parse_local_store = home.storePath applicationId.bytes) :
    keyFile store key = home.storePath applicationId.bytes ++ key.bytes := by
  have fits : ([] ++ home.storePath applicationId.bytes ++ key.bytes).length < PATH_MAX := by
    rw [List.nil_append]
    exact reaches.fits
  rw [keyFile, used, appendPath_appendPath fits, List.nil_append]

theorem locate_key {files : Files} {key : CString} (reaches : home.Reaches applicationId key) :
    locate files (home.storePath applicationId.bytes ++ key.bytes) =
      if files.node (home.application applicationId.bytes) = some .directory then
        some (home.application applicationId.bytes, key.bytes)
      else none := by
  have split := home.names_storePath reaches.application key.bytes
  rw [names_name reaches.name] at split
  refine locate_eq split (List.forall_mem_append.mpr ⟨?_, ?_⟩)
  · exact home.application_plain reaches.application
  · exact List.forall_mem_singleton.mpr reaches.name

/-- The path of a key is the one of a directory only where its entry is one. -/
theorem isDirectory_key {files : Files} {key : CString} (reaches : home.Reaches applicationId key) :
    IsDirectory files (home.storePath applicationId.bytes ++ key.bytes) ↔
      files.node (home.application applicationId.bytes ++ [key.bytes]) = some .directory := by
  have split := home.names_storePath reaches.application key.bytes
  rw [names_name reaches.name] at split
  have plain := List.forall_mem_append.mpr ⟨home.application_plain reaches.application,
    List.forall_mem_singleton.mpr reaches.name⟩
  rw [IsDirectory, split, map_pathStep plain, files.walk_down _ files.root, List.nil_append]
  split <;> simp_all

theorem getLast?_keyPath {key : CString} (reaches : home.Reaches applicationId key) :
    (home.storePath applicationId.bytes ++ key.bytes).getLast? ≠ some Byte.slash := by
  rw [List.getLast?_append, List.getLast?_eq_some_getLast reaches.name.nonempty, Option.some_or]
  intro last
  exact reaches.name.noSlash (Option.some.inj last ▸ List.getLast_mem reaches.name.nonempty)

theorem Home.Keeps.locateFile_key {files : Files} (keeps : home.Keeps files m) {key : CString}
    (reaches : home.Reaches applicationId key) :
    locateFile files (home.storePath applicationId.bytes ++ key.bytes) =
      if files.node (home.application applicationId.bytes) = some .directory then
        some (home.application applicationId.bytes, key.bytes)
      else none := by
  rw [locateFile, if_neg (getLast?_keyPath reaches), locate_key reaches]
  by_cases there : files.node (home.application applicationId.bytes) = some .directory
  · rw [if_pos there]
    dsimp only
    rw [if_neg]
    rw [keeps.key]
    cases m applicationId.bytes key.bytes <;> simp [valueFile]
  · rw [if_neg there]

/-- Where the directory of the application is missing, nothing is stored for it. -/
theorem Home.Keeps.eq_none {files : Files} (keeps : home.Keeps files m) {a : List Byte}
    (missing : files.node (home.application a) ≠ some .directory) (k : List Byte) :
    m a k = none := by
  by_contra stored
  refine missing (files.closed _ k ?_)
  rw [keeps.key, ne_eq, Option.map_eq_none_iff]
  exact stored

theorem Home.Keeps.readFile_key {files : Files} (keeps : home.Keeps files m) {key : CString}
    (reaches : home.Reaches applicationId key) (size : Nat) :
    readFile files (home.storePath applicationId.bytes ++ key.bytes) size =
      (m applicationId.bytes key.bytes).map fun value => (value ++ [Byte.nul]).take size := by
  have noDirectory : ¬ IsDirectory files (home.storePath applicationId.bytes ++ key.bytes) := by
    rw [isDirectory_key reaches, keeps.key]
    cases m applicationId.bytes key.bytes <;> simp [valueFile]
  rw [readFile, if_neg noDirectory, keeps.locateFile_key reaches]
  by_cases there : files.node (home.application applicationId.bytes) = some .directory
  · rw [if_pos there]
    dsimp only
    rw [keeps.key]
    cases m applicationId.bytes key.bytes <;> rfl
  · rw [if_neg there, keeps.eq_none there]
    rfl

/-! ## What each operation does -/

/-- A change of the file of one key. -/
theorem Home.Keeps.update {files files' : Files} (keeps : home.Keeps files m) {m' : KeyMap}
    {a k : List Byte} (nodes : files'.node =
      Function.update files.node (home.application a ++ [k]) ((m' a k).map valueFile))
    (others : ∀ b l, ¬ (b = a ∧ l = k) → m' b l = m b l) : home.Keeps files' m' where
  directory := by
    rw [nodes, Function.update_of_ne (by simp [Home.application, Home.package])]
    exact keeps.directory
  package := by
    rw [nodes, Function.update_of_ne (by simp [Home.application])]
    exact keeps.package
  application := fun b => by
    rw [nodes, Function.update_of_ne (by simp [Home.application])]
    exact keeps.application b
  key := fun b l => by
    by_cases target : b = a ∧ l = k
    · obtain ⟨rfl, rfl⟩ := target
      rw [nodes, Function.update_self]
    · rw [nodes, others b l target, Function.update_of_ne]
      · exact keeps.key b l
      · intro same
        obtain ⟨front, last⟩ := FileTree.snoc_inj same
        exact target ⟨(FileTree.snoc_inj front).2, last⟩

theorem Home.Keeps.parseOsStoreKey (keeps : home.Keeps store.files m) {key : CString}
    (own : store.Own home applicationId) (reaches : home.Reaches applicationId key)
    (there : store.There home applicationId) (value : CString) :
    home.Keeps (parseOsStoreKey home.text store applicationId key value).files
        (m.store applicationId.bytes key.bytes value.bytes) ∧
      (Unix.parseOsStoreKey home.text store applicationId key value).parse_local_store =
        home.storePath applicationId.bytes ∧
      (Unix.parseOsStoreKey home.text store applicationId key value).There home
        applicationId := by
  obtain ⟨keeps, used, made, same⟩ :=
    keeps.setLocalStorage own reaches.application reaches.storePath_fits
  rw [Unix.parseOsStoreKey]
  generalize parseOsSetLocalStorageIfNeeded home.text store applicationId = next at *
  have directory := there.directory made same
  have noDirectory : next.files.node (home.application applicationId.bytes ++ [key.bytes]) ≠
      some .directory := by
    rw [keeps.key]
    cases m applicationId.bytes key.bytes <;> simp [valueFile]
  simp only [keyFile_eq reaches used, keeps.locateFile_key reaches, if_pos directory]
  have opened := next.files.node_put (x := .file []) directory noDirectory
  have written := ((next.files.put (home.application applicationId.bytes) key.bytes
      (.file [])).node_put (p := home.application applicationId.bytes) (n := key.bytes)
      (x := valueFile value.bytes) (by
        rw [opened, Function.update_of_ne (by simp)]
        exact directory) (by
        rw [opened, Function.update_self]
        simp))
  rw [opened, Function.update_idem] at written
  refine ⟨keeps.update (a := applicationId.bytes) (k := key.bytes) ?_ ?_, used, fun _ => ?_⟩
  · rw [KeyMap.store, if_pos ⟨rfl, rfl⟩]
    exact written
  · exact fun b l other => if_neg other
  · change FileTree.node (FileTree.put _ _ _ (valueFile value.bytes)) _ = _
    rw [written, Function.update_of_ne (by simp)]
    exact directory

/-- A load fills the buffer as far as it goes. -/
theorem Home.Keeps.parseOsLoadKey (keeps : home.Keeps store.files m) {key : CString}
    (own : store.Own home applicationId) (reaches : home.Reaches applicationId key)
    {value : List Byte} (some : 0 < value.length) :
    home.Keeps (parseOsLoadKey home.text store applicationId key value).1.files m ∧
      (Unix.parseOsLoadKey home.text store applicationId key value).1.parse_local_store =
        home.storePath applicationId.bytes ∧
      (store.There home applicationId →
        (Unix.parseOsLoadKey home.text store applicationId key value).1.There home
          applicationId) ∧
      (Unix.parseOsLoadKey home.text store applicationId key value).2 =
        overwrite value
          ((m.load applicationId.bytes key.bytes ++ [Byte.nul]).take value.length) := by
  obtain ⟨keeps, used, made, same⟩ :=
    keeps.setLocalStorage own reaches.application reaches.storePath_fits
  rw [Unix.parseOsLoadKey, if_neg (by omega)]
  generalize parseOsSetLocalStorageIfNeeded home.text store applicationId = next at *
  simp only [keyFile_eq reaches used, keeps.readFile_key reaches]
  cases stored : m applicationId.bytes key.bytes with
  | none =>
      have one : [Byte.nul].take value.length = [Byte.nul] := List.take_of_length_le some
      refine ⟨keeps, used, fun there _ => there.directory made same, ?_⟩
      rw [KeyMap.load, stored, Option.getD_none, List.nil_append, one]
      rfl
  | some text =>
      refine ⟨keeps, used, fun there _ => there.directory made same, ?_⟩
      rw [KeyMap.load, stored, Option.getD_some]
      rfl

theorem Home.Keeps.parseOsClearKey (keeps : home.Keeps store.files m) {key : CString}
    (own : store.Own home applicationId) (reaches : home.Reaches applicationId key) :
    home.Keeps (parseOsClearKey home.text store applicationId key).files
        (m.clear applicationId.bytes key.bytes) ∧
      (Unix.parseOsClearKey home.text store applicationId key).parse_local_store =
        home.storePath applicationId.bytes ∧
      (store.There home applicationId →
        (Unix.parseOsClearKey home.text store applicationId key).There home applicationId) := by
  obtain ⟨keeps, used, made, same⟩ :=
    keeps.setLocalStorage own reaches.application reaches.storePath_fits
  rw [Unix.parseOsClearKey]
  generalize parseOsSetLocalStorageIfNeeded home.text store applicationId = next at *
  simp only [keyFile_eq reaches used]
  rw [remove, locate_key reaches]
  by_cases there : next.files.node (home.application applicationId.bytes) = some .directory
  · rw [if_pos there]
    dsimp only
    rw [if_neg fun slash => getLast?_keyPath reaches slash.1]
    have empty : next.files.entries (home.application applicationId.bytes ++ [key.bytes]) =
        [] := by
      refine next.files.entries_eq_nil ?_
      rw [keeps.key]
      cases m applicationId.bytes key.bytes <;> simp [valueFile]
    have nodes := next.files.node_erase empty
    refine ⟨keeps.update (a := applicationId.bytes) (k := key.bytes) ?_ fun b l other =>
      if_neg other, used, fun _ _ => ?_⟩
    · rw [nodes, KeyMap.clear, if_pos ⟨rfl, rfl⟩]
      rfl
    · rw [nodes, Function.update_of_ne (by simp)]
      exact there
  · rw [if_neg there]
    have unchanged : m.clear applicationId.bytes key.bytes = m := by
      funext a k
      rw [KeyMap.clear]
      split
      · rename_i target
        rw [target.1, keeps.eq_none there]
      · rfl
    rw [unchanged]
    exact ⟨keeps, used, fun h _ => h.directory made same⟩

/-! ## Removing the directory of the application -/

/-- Removing files one by one. -/
theorem foldl_erase (p : List (List Byte)) (ns : List (List Byte)) (levels : Nat) :
    ∀ {files : Files}, (∀ n, files.node (p ++ [n]) ≠ some .directory) →
      ∀ q, let removed := ns.foldl (fun files name =>
          if files.node (p ++ [name]) = some .directory then parseOsRemoveDir levels files p name
          else files.erase p name) files
        (q ∈ ns.map (p ++ [·]) → removed.node q = none) ∧
          (q ∉ ns.map (p ++ [·]) → removed.node q = files.node q) := by
  induction ns with
  | nil =>
      intro files _ q
      exact ⟨fun member => absurd member List.not_mem_nil, fun _ => rfl⟩
  | cons n ns ih =>
      intro files noDirectory q
      have erased := files.node_erase (files.entries_eq_nil (noDirectory n))
      have still : ∀ l, (files.erase p n).node (p ++ [l]) ≠ some .directory := by
        intro l
        rw [erased]
        by_cases same : p ++ [l] = p ++ [n]
        · rw [same, Function.update_self]
          exact (Option.some_ne_none _).symm
        · rw [Function.update_of_ne same]
          exact noDirectory l
      obtain ⟨gone, kept⟩ := ih still q
      rw [List.foldl_cons, if_neg (noDirectory n), List.map_cons, List.mem_cons]
      dsimp only
      by_cases later : q ∈ ns.map (p ++ [·])
      · exact ⟨fun _ => gone later, fun absent => absurd (Or.inr later) absent⟩
      · rw [kept later, erased]
        by_cases here : q = p ++ [n]
        · rw [here, Function.update_self]
          exact ⟨fun _ => rfl, fun absent => absurd (Or.inl rfl) absent⟩
        · rw [Function.update_of_ne here]
          exact ⟨fun member => absurd member (not_or.mpr ⟨here, later⟩), fun _ => rfl⟩

/-- A directory with nothing but files in it goes as a whole, and nothing else does. -/
theorem removeDir_files {files : Files} {parent : List (List Byte)} {dir : List Byte}
    (levels : Nat) (there : files.node (parent ++ [dir]) = some .directory)
    (noDirectory : ∀ n, files.node (parent ++ [dir] ++ [n]) ≠ some .directory) :
    let removed := parseOsRemoveDir (levels + 1) files parent dir
    removed.node (parent ++ [dir]) = none ∧ (∀ n, removed.node (parent ++ [dir] ++ [n]) = none) ∧
      ∀ q, q ≠ parent ++ [dir] → (∀ n, q ≠ parent ++ [dir] ++ [n]) →
        removed.node q = files.node q := by
  have emptied := foldl_erase (parent ++ [dir]) (files.entries (parent ++ [dir])) levels
    noDirectory
  simp only [parseOsRemoveDir, if_pos there]
  generalize List.foldl _ files _ = next at *
  have nothing : ∀ n, next.node (parent ++ [dir] ++ [n]) = none := by
    intro n
    obtain ⟨gone, kept⟩ := emptied (parent ++ [dir] ++ [n])
    by_cases present : n ∈ files.entries (parent ++ [dir])
    · exact gone (List.mem_map_of_mem present)
    · rw [kept, ← not_ne_iff, ← files.listed]
      · exact present
      · intro member
        obtain ⟨l, listed, same⟩ := List.mem_map.mp member
        exact present ((FileTree.snoc_inj same).2 ▸ listed)
  have empty : next.entries (parent ++ [dir]) = [] :=
    List.eq_nil_iff_forall_not_mem.mpr fun n member =>
      (next.listed _ _).mp member (nothing n)
  rw [next.node_erase empty]
  refine ⟨Function.update_self .., fun n => ?_, fun q top inside => ?_⟩
  · rw [Function.update_of_ne (by simp)]
    exact nothing n
  · rw [Function.update_of_ne top]
    refine (emptied q).2 fun member => ?_
    obtain ⟨n, _, same⟩ := List.mem_map.mp member
    exact inside n same.symm

theorem Home.Keeps.parseOsClearAll (keeps : home.Keeps store.files m)
    (own : store.Own home applicationId) (isName : IsName applicationId.bytes)
    (fits : (home.storePath applicationId.bytes).length < PATH_MAX) :
    home.Keeps (parseOsClearAll home.text store applicationId).files
        (m.clearAll applicationId.bytes) ∧
      (Unix.parseOsClearAll home.text store applicationId).parse_local_store =
        home.storePath applicationId.bytes := by
  obtain ⟨keeps, used, -, -⟩ := keeps.setLocalStorage own isName fits
  rw [Unix.parseOsClearAll]
  generalize parseOsSetLocalStorageIfNeeded home.text store applicationId = next at *
  have split : names (home.storePath applicationId.bytes) =
      home.package ++ [applicationId.bytes] := by
    have := home.names_storePath isName []
    simpa [names, namesFrom, Home.application] using this
  have located := @locate_eq next.files _ _ _ (used ▸ split) (home.application_plain isName)
  simp only [located]
  by_cases there : next.files.node (home.application applicationId.bytes) = some .directory
  · have parent : next.files.node home.package = some .directory :=
      next.files.closed _ applicationId.bytes (there ▸ Option.some_ne_none _)
    rw [if_pos parent]
    refine ⟨?_, used⟩
    obtain ⟨top, inside, others⟩ := removeDir_files 4095 there fun n => by
      change next.files.node (home.application applicationId.bytes ++ [n]) ≠ _
      rw [keeps.key]
      cases m applicationId.bytes n <;> simp [valueFile]
    change home.Keeps (parseOsRemoveDir (4095 + 1) next.files home.package applicationId.bytes) _
    generalize parseOsRemoveDir _ next.files _ _ = removed at *
    refine ⟨?_, ?_, fun a => ?_, fun a k => ?_⟩
    · rw [others _ (by simp [Home.package]) (by simp [Home.package])]
      exact keeps.directory
    · rw [others _ (by simp) (by simp)]
      exact keeps.package
    · by_cases same : a = applicationId.bytes
      · subst same
        exact Or.inl top
      · have other := others (home.application a) (fun h => same (FileTree.snoc_inj h).2)
          (by simp [Home.application])
        rw [other]
        exact keeps.application a
    · rw [KeyMap.clearAll]
      by_cases same : a = applicationId.bytes
      · subst same
        rw [if_pos rfl]
        exact inside k
      · have other := others (home.application a ++ [k]) (by simp [Home.application])
          fun n h => same (FileTree.snoc_inj (FileTree.snoc_inj h).1).2
        rw [if_neg same, other]
        exact keeps.key a k
  · have same : m.clearAll applicationId.bytes = m := by
      funext a k
      rw [KeyMap.clearAll]
      split
      · rename_i target
        rw [target, keeps.eq_none there]
      · rfl
    rw [same]
    split
    · rename_i parent dir found
      have target : parent ++ [dir] = home.application applicationId.bytes := by
        split at found
        · obtain ⟨rfl, rfl⟩ := Prod.mk.inj (Option.some.inj found)
          rfl
        · exact absurd found (Option.some_ne_none _).symm
      rw [parseOsRemoveDir]
      dsimp only
      rw [if_neg (target ▸ there)]
      exact ⟨keeps, used⟩
    · exact ⟨keeps, used⟩

end Operations

/-! ## Runs -/

/-- A call of the key store, or the start of another process. -/
inductive StoreCall where
  | parseOsStoreKey (applicationId key value : CString)
  | parseOsLoadKey (applicationId key : CString) (value : List Byte)
  | parseOsClearKey (applicationId key : CString)
  | parseOsClearAll (applicationId : CString)
  | restart

/-- The store, and the map that the calls so far have made. -/
structure StoreWorld where
  store : KeyStore
  map : KeyMap

/-- One call. A load puts out its buffer. -/
def storeStep (homedir : List Byte) (w : StoreWorld) : StoreCall → StoreWorld × List Byte
  | .parseOsStoreKey applicationId key value =>
      (⟨parseOsStoreKey homedir w.store applicationId key value,
        w.map.store applicationId.bytes key.bytes value.bytes⟩, [])
  | .parseOsLoadKey applicationId key value =>
      let (store, value) := parseOsLoadKey homedir w.store applicationId key value
      (⟨store, w.map⟩, value)
  | .parseOsClearKey applicationId key =>
      (⟨parseOsClearKey homedir w.store applicationId key,
        w.map.clear applicationId.bytes key.bytes⟩, [])
  | .parseOsClearAll applicationId =>
      (⟨parseOsClearAll homedir w.store applicationId,
        w.map.clearAll applicationId.bytes⟩, [])
  | .restart => (⟨{ w.store with parse_local_store := [] }, w.map⟩, [])

/-- A call that the store serves: the process has used no other application, the names fit, a
value is not stored where `parseOsClearAll` has taken the directory away, and the buffer of a
load has room. -/
def Serves (home : Home) (w : StoreWorld) : StoreCall → Prop
  | .parseOsStoreKey applicationId key _ =>
      w.store.Own home applicationId ∧ home.Reaches applicationId key ∧
        w.store.There home applicationId
  | .parseOsLoadKey applicationId key value =>
      w.store.Own home applicationId ∧ home.Reaches applicationId key ∧
        (w.map.load applicationId.bytes key.bytes).length < value.length
  | .parseOsClearKey applicationId key =>
      w.store.Own home applicationId ∧ home.Reaches applicationId key
  | .parseOsClearAll applicationId =>
      w.store.Own home applicationId ∧ IsName applicationId.bytes ∧
        (home.storePath applicationId.bytes).length < PATH_MAX
  | .restart => True

instance (home : Home) (w : StoreWorld) : (call : StoreCall) → Decidable (Serves home w call)
  | .parseOsStoreKey _ _ _ => inferInstanceAs (Decidable (_ ∧ _ ∧ _))
  | .parseOsLoadKey _ _ _ => inferInstanceAs (Decidable (_ ∧ _ ∧ _ < _))
  | .parseOsClearKey _ _ => inferInstanceAs (Decidable (_ ∧ _))
  | .parseOsClearAll _ => inferInstanceAs (Decidable (_ ∧ _ ∧ _ < _))
  | .restart => isTrue trivial

abbrev StoreTransition := Runs.Transition StoreWorld StoreCall (List Byte)

/-- A load yields what the map holds, as a string in the buffer. -/
def Yields (t : StoreTransition) : Prop :=
  match t.input with
  | .parseOsLoadKey applicationId key value =>
      t.output = overwrite value (t.before.map.load applicationId.bytes key.bytes ++ [Byte.nul])
  | _ => True

/-- What one call that is served keeps and yields. -/
theorem storeStep_keeps {home : Home} {w : StoreWorld} {call : StoreCall}
    (keeps : home.Keeps w.store.files w.map) (serves : Serves home w call) :
    home.Keeps (storeStep home.text w call).1.store.files (storeStep home.text w call).1.map ∧
      Yields (fire (storeStep home.text) w call) := by
  cases call with
  | parseOsStoreKey applicationId key value =>
      obtain ⟨own, reaches, there⟩ := serves
      exact ⟨(keeps.parseOsStoreKey own reaches there value).1, trivial⟩
  | parseOsLoadKey applicationId key value =>
      obtain ⟨own, reaches, room⟩ := serves
      obtain ⟨next, -, -, yields⟩ := keeps.parseOsLoadKey own reaches (Nat.zero_lt_of_lt room)
      refine ⟨next, yields.trans (congrArg (overwrite value) (List.take_of_length_le ?_))⟩
      rw [List.length_append, List.length_singleton]
      exact room
  | parseOsClearKey applicationId key =>
      obtain ⟨own, reaches⟩ := serves
      exact ⟨(keeps.parseOsClearKey own reaches).1, trivial⟩
  | parseOsClearAll applicationId =>
      obtain ⟨own, isName, fits⟩ := serves
      exact ⟨(keeps.parseOsClearAll own isName fits).1, trivial⟩
  | restart => exact ⟨keeps, trivial⟩

/-- **The key store is a map as long as a process stays with one application and stores nothing
behind a `parseOsClearAll`.** In every run of such calls, from files that hold nothing for any
application, and over any number of processes, each load yields the value stored last and not
cleared since, or the empty string. -/
theorem key_store_is_map {home : Home} {files : Files} (fresh : home.Keeps files .empty)
    (calls : List StoreCall)
    (serves : ∀ t ∈ run (storeStep home.text) ⟨⟨files, []⟩, .empty⟩ calls,
      Serves home t.before t.input) :
    ∀ t ∈ run (storeStep home.text) ⟨⟨files, []⟩, .empty⟩ calls, Yields t := by
  have along := run_invariant (storeStep home.text)
    (fun w => home.Keeps w.store.files w.map) (fun t => Serves home t.before t.input)
    (fun w call keeps served => (storeStep_keeps keeps served).1) calls fresh serves
  intro t member
  rw [eq_fire_of_mem _ member]
  exact (storeStep_keeps (along.1 _ member).1 (serves _ member)).2

section Example

def exampleHome : Home := ⟨ascii "/h", by decide⟩

/-- A device with nothing but the home directory. -/
def exampleFiles : Files := FileTree.bare.put [] (ascii "h") .directory

theorem exampleFiles_node (p : List (List Byte)) :
    exampleFiles.node p =
      if p = [ascii "h"] then some .directory else if p = [] then some .directory else none := by
  rw [exampleFiles, FileTree.node_put _ rfl (by decide)]
  simp only [Function.update_apply, List.nil_append]
  rfl

theorem exampleFiles_fresh : exampleHome.Keeps exampleFiles .empty := by
  have home : names exampleHome.text = [ascii "h"] := by decide
  refine ⟨?_, Or.inl ?_, fun a => Or.inl ?_, fun a k => ?_⟩
  · rw [exampleFiles_node, home, if_pos rfl]
  · simp [exampleFiles_node, Home.package, home]
  · simp [exampleFiles_node, Home.application, Home.package, home]
  · simp [exampleFiles_node, Home.application, Home.package, home, KeyMap.empty]

def exampleWorld : StoreWorld := ⟨⟨exampleFiles, []⟩, .empty⟩

/-- A process stores a value twice, loads it, clears it and stores another one; a process of
another application stores a value under the same key and clears everything; and a third one, of
the first application again, loads both keys. -/
def exampleCalls : List StoreCall :=
  let a := CString.literal "a"
  let b := CString.literal "b"
  let k := CString.literal "k"
  let l := CString.literal "l"
  let buffer := ascii "........"
  [.parseOsStoreKey a k (CString.literal "value"), .parseOsStoreKey a k (CString.literal "v"),
    .parseOsLoadKey a k buffer, .parseOsClearKey a k, .parseOsLoadKey a k buffer,
    .parseOsStoreKey a l (CString.literal "w"), .restart,
    .parseOsStoreKey b l (CString.literal "x"), .parseOsLoadKey b l buffer, .parseOsClearAll b,
    .parseOsLoadKey b l buffer, .restart,
    .parseOsLoadKey a k buffer, .parseOsLoadKey a l buffer]

theorem key_store_is_map_example :
    (∀ t ∈ run (storeStep exampleHome.text) exampleWorld exampleCalls,
      Serves exampleHome t.before t.input) ∧
    ∀ t ∈ run (storeStep exampleHome.text) exampleWorld exampleCalls, Yields t := by
  have serves : ∀ t ∈ run (storeStep exampleHome.text) exampleWorld exampleCalls,
      Serves exampleHome t.before t.input := by
    decide +kernel
  exact ⟨serves, key_store_is_map exampleFiles_fresh exampleCalls serves⟩

/-- What the process stores for one application, it loads for another one. -/
def mixedLoad : StoreTransition :=
  fire (storeStep exampleHome.text)
    (final (storeStep exampleHome.text) exampleWorld
      [.parseOsStoreKey (CString.literal "a") (CString.literal "k") (CString.literal "v")])
    (.parseOsLoadKey (CString.literal "b") (CString.literal "k") (ascii "........"))

/-- What is stored behind a `parseOsClearAll` is lost. -/
def clearedLoad : StoreTransition :=
  fire (storeStep exampleHome.text)
    (final (storeStep exampleHome.text) exampleWorld
      [.parseOsClearAll (CString.literal "a"),
        .parseOsStoreKey (CString.literal "a") (CString.literal "k") (CString.literal "v")])
    (.parseOsLoadKey (CString.literal "a") (CString.literal "k") (ascii "........"))

theorem key_store_is_map_counterexample :
    (∃ calls, mixedLoad ∈ run (storeStep exampleHome.text) exampleWorld calls) ∧
      ¬ Yields mixedLoad ∧
      (∃ calls, clearedLoad ∈ run (storeStep exampleHome.text) exampleWorld calls) ∧
      ¬ Yields clearedLoad := by
  refine ⟨⟨_, fire_final_mem _ _ _ _⟩, ?_, ⟨_, fire_final_mem _ _ _ _⟩, ?_⟩
  · have loaded : mixedLoad.output = overwrite (ascii "........") (ascii "v" ++ [Byte.nul]) := by
      decide +kernel
    exact fun yields => absurd (loaded.symm.trans yields) (by decide +kernel)
  · have loaded : clearedLoad.output = overwrite (ascii "........") [Byte.nul] := by
      decide +kernel
    exact fun yields => absurd (loaded.symm.trans yields) (by decide +kernel)

end Example

end ParseEmbedded.Unix
