import Folio.Digest
import Folio.FileSystem
import Folio.Result

/-! Results kept from one build to the next. The result of a document is kept under the digest of the
document's path, together with a digest of its text and options, and counts only for them. -/

namespace Folio

/-- A directory of kept results. -/
structure Cache where
  dir : Path

namespace Cache

variable {m : Type → Type} [Monad m] [FileSystem m]

/-- The name of the directory, inside that of the generated files. -/
def dirName : String := ".emadocs-cache"

/-- The directory of kept results, which is made if it is missing. If that fails, nothing will be
kept. -/
def create (outDir : Path) : m Cache := do
  let dir := outDir.child dirName
  if !(← FileSystem.isPresent dir) then
    let _ ← FileSystem.makeDirs dir
  return ⟨dir⟩

/-- The bytes that tell a text and its options apart from all others. -/
def hashInput (source : String) (options : Options) : List UInt8 :=
  Text.utf8 source ++ Text.utf8 options.toJson.compact

/-- The digest of a text and its options. -/
def hash (source : String) (options : Options) : String :=
  Digest.sha256 (hashInput source options)

/-- A kept result. -/
structure Entry where
  hash : String
  result : Result

/-- A kept result as JSON. -/
def Entry.toJson (e : Entry) : Json :=
  .object [("hash", .string e.hash), ("result", e.result.toJson)]

/-- Reads a kept result in a JSON text. -/
def Entry.reader : Json.Reader Entry :=
  Json.Reader.fullRecord "struct CacheEntry"
    [⟨"hash", do let h ← Json.Reader.text "a string"; return fun e => { e with hash := h }⟩,
      ⟨"result", do let r ← Result.reader; return fun e => { e with result := r }⟩]
    ⟨"", Result.failure "" ⟨0⟩⟩

/-- The kept result that a JSON text writes. -/
def Entry.read (text : String) : Except Json.Fault Entry := Json.readWith reader text

/-- The file for the result of a document. -/
def entryPath (c : Cache) (file : String) : Path :=
  c.dir.child (Digest.sha256 (Text.utf8 file) ++ ".json")

/-- The kept result of a document, if it was made from this text with these options. A file that
holds no result is removed. -/
def lookup (c : Cache) (file source : String) (options : Options) :
    m (Except Duration.Fault (Option Result)) := do
  let path := c.entryPath file
  match ← FileSystem.readText path with
  | .error _ => return .ok none
  | .ok text =>
    match Entry.read text with
    | .ok entry =>
      return .ok (if entry.hash = hash source options then some entry.result else none)
    | .error fault =>
      match fault.cause with
      | .badTime fault => return .error fault
      | _ =>
        let _ ← FileSystem.removeFile path
        return .ok none

/-- Keeps the result of a document, unless it failed. -/
def store (c : Cache) (file source : String) (options : Options) (result : Result) : m Unit := do
  if result.success then
    let entry : Entry := ⟨hash source options, result⟩
    let _ ← FileSystem.writeBytes (c.entryPath file) (Text.utf8 entry.toJson.compact)

end Cache

end Folio
