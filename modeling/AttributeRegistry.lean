import AttributeRegistry.Attribute.Grammar
import AttributeRegistry.Codegen.Constant
import AttributeRegistry.Codegen.Manifest
import AttributeRegistry.Codegen.Target
import AttributeRegistry.Command.Program
import AttributeRegistry.Compilation
import AttributeRegistry.Decimal.Layout
import AttributeRegistry.Discovery
import AttributeRegistry.Document.Load
import AttributeRegistry.Drift
import AttributeRegistry.Error
import AttributeRegistry.FileTree
import AttributeRegistry.Finding
import AttributeRegistry.Generation
import AttributeRegistry.Json.Value
import AttributeRegistry.Main
import AttributeRegistry.Namespace
import AttributeRegistry.Resolution
import AttributeRegistry.Settings.Load
import AttributeRegistry.Sha256
import AttributeRegistry.Shape.Basic
import AttributeRegistry.Text.Blank
import AttributeRegistry.Text.Lines
import AttributeRegistry.Text.Quoted
import AttributeRegistry.Toml.Date
import AttributeRegistry.Toml.Document
import AttributeRegistry.Toml.Reader
import AttributeRegistry.Toml.Writer
import AttributeRegistry.Version.Parser
import AttributeRegistry.Yaml.Reader
import AttributeRegistry.Proofs.Order.Canonical
import AttributeRegistry.Proofs.Registry.Definitions
import AttributeRegistry.Proofs.Resolution.Unanimous
import AttributeRegistry.Proofs.Compilation.Spread
import AttributeRegistry.Proofs.Attribute.Decidable
import AttributeRegistry.Proofs.Text.Lines
import AttributeRegistry.Proofs.Validation.Rules
import AttributeRegistry.Proofs.Validation.Complete
import AttributeRegistry.Proofs.Codegen.Key
import AttributeRegistry.Proofs.Codegen.RustComments
import AttributeRegistry.Proofs.Json.Reading
import AttributeRegistry.Proofs.Json.Values
import AttributeRegistry.Proofs.Attribute.Decoding
import AttributeRegistry.Proofs.Document.Registry
import AttributeRegistry.Proofs.Storage.FileTree
import AttributeRegistry.Proofs.Version.Reading
import AttributeRegistry.Proofs.Codegen.Contents
import AttributeRegistry.Proofs.Codegen.Links
import AttributeRegistry.Proofs.Codegen.Manifest
import AttributeRegistry.Proofs.Storage.Touched
import AttributeRegistry.Proofs.Storage.Written
import AttributeRegistry.Proofs.Compilation.Permuted
import AttributeRegistry.Proofs.Compilation.Reimported
import AttributeRegistry.Proofs.Codegen.JavaComments
import AttributeRegistry.Proofs.Resolution.Agreement
import AttributeRegistry.Proofs.Command.Again
import AttributeRegistry.Proofs.Command.Cleared
import AttributeRegistry.Proofs.Compilation.Isolated
import AttributeRegistry.Proofs.Codegen.PythonModule
import AttributeRegistry.Proofs.Deprecation.Cycles
import AttributeRegistry.Proofs.Deprecation.Lookup
import AttributeRegistry.Proofs.Storage.Components
import AttributeRegistry.Proofs.Deprecation.Repair
import AttributeRegistry.Proofs.Resolution.Merged
import AttributeRegistry.Proofs.Settings.Saved
import AttributeRegistry.Proofs.Drift.Versions
import AttributeRegistry.Proofs.Codegen.NoteLines
import AttributeRegistry.Proofs.Settings.Verbatim
import AttributeRegistry.Proofs.Drift.Patches
import AttributeRegistry.Proofs.Document.Parsed
import AttributeRegistry.Proofs.Resolution.Versions
import AttributeRegistry.Proofs.Validation.Flaws
import AttributeRegistry.Proofs.Command.Checked
import AttributeRegistry.Proofs.Attribute.Signals
import AttributeRegistry.Proofs.Codegen.JavaProse
import AttributeRegistry.Proofs.Attribute.Displayed
import AttributeRegistry.Proofs.Storage.Discovered
import AttributeRegistry.Proofs.Deprecation.Hints
import AttributeRegistry.Proofs.Registry.Namespaces
import AttributeRegistry.Proofs.Codegen.NoteParagraphs
import AttributeRegistry.Proofs.Validation.Collisions
