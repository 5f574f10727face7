import Folio.Path

/-! Where the generated files of a document go. -/

namespace Folio

/-- The extension of documents. -/
def documentExtension : String := "ema"

/-- The directory for a document's files: the place of the document below the sources, without the
extension. A document named `index` stands for the directory that it is in. -/
def outputDir (srcDir outDir file : Path) : Path :=
  let relative := (file.relativeTo? srcDir).getD ⟨file.fileName?.getD ""⟩
  let stem := relative.withoutExtension
  if stem.fileName? = some "index" then
    match stem.parent? with
    | some parent => if parent.text.isEmpty then outDir else outDir.join parent
    | none => outDir
  else outDir.join stem

end Folio
