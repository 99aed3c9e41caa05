import Newsletter.Command.Run
import Newsletter.Main
import Newsletter.Proofs.Markup.Reader
import Newsletter.Storage.FileTree
import Newsletter.Proofs.Block.Forest
import Newsletter.Proofs.Draft.Kept
import Newsletter.Proofs.Extraction.Pass
import Newsletter.Proofs.Edition.Images
import Newsletter.Proofs.Design.Lookup
import Newsletter.Proofs.Session.Refusals
import Newsletter.Proofs.Path.Names
import Newsletter.Proofs.Storage.Place
import Newsletter.Proofs.Package.Steps
import Newsletter.Proofs.Package.Contents
import Newsletter.Proofs.Package.References
import Newsletter.Proofs.Json.Spelling
import Newsletter.Proofs.Design.Stored
import Newsletter.Proofs.Command.Conversation
import Newsletter.Proofs.Design.Insertion
import Newsletter.Proofs.Design.Assembly
import Newsletter.Proofs.Session.Moves
import Newsletter.Proofs.Draft.Assembled
import Newsletter.Proofs.Json.Properties
import Newsletter.Proofs.Session.Exported
import Newsletter.Proofs.Edition.Findings
import Newsletter.Proofs.Edition.Alike
import Newsletter.Proofs.Session.Identities
import Newsletter.Proofs.Package.Confinement
import Newsletter.Proofs.Time.Written
import Newsletter.Proofs.Json.Records
import Newsletter.Proofs.Manifest.Stored
import Newsletter.Proofs.Manifest.Seal
import Newsletter.Proofs.Extraction.Places
import Newsletter.Proofs.Storage.Nested
import Newsletter.Proofs.Package.Progress
import Newsletter.Proofs.Tag.Store
import Newsletter.Proofs.Session.Insertions
import Newsletter.Proofs.Session.Taggings
import Newsletter.Proofs.Extraction.Sources
import Newsletter.Proofs.Json.Canonical
import Newsletter.Proofs.Settings.Accepted
import Newsletter.Proofs.Session.Messages
import Newsletter.Proofs.Extraction.Dialogue
import Newsletter.Proofs.Bytes.Base64
import Newsletter.Proofs.Design.Pictures
import Newsletter.Proofs.Json.Nesting
import Newsletter.Proofs.Json.Restored
import Newsletter.Proofs.Command.Saved
import Newsletter.Proofs.Block.Stored
import Newsletter.Proofs.Session.Sent
import Newsletter.Proofs.Command.Wire
import Newsletter.Proofs.Edition.Stripped
import Newsletter.Proofs.Design.Hosts
import Newsletter.Proofs.Design.Allocation
import Newsletter.Proofs.Design.Changes
