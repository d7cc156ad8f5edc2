import FileRelay.Toml.Document
import FileRelay.Wire.Settings

/-!
# Mount settings as a document

The settings of a mount may be given as a TOML document.  Its top level holds the same
fields as the settings on the wire; whatever else it holds is passed over.
-/

namespace FileRelay

/-- A value of a document as far as a field of the settings could take it: texts and
truth values are taken, nothing else is. -/
def Toml.Node.field : Toml.Node → Json
  | .text s => .text s
  | .flag b => .flag b
  | _ => .null

/-- Reads mount settings from a document. -/
def MountSettings.ofDocument? (source : String) : Option MountSettings := do
  let members ← Toml.read? source
  ofFields? (members.map fun (name, node) => (name, node.field))

end FileRelay
