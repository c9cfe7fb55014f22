import ServiceTypes.Diagnostic
import ServiceTypes.Fault
import ServiceTypes.Json
import ServiceTypes.Limits
import ServiceTypes.Path
import ServiceTypes.Proofs.Json.Decoding
import ServiceTypes.Proofs.Json.Grammar
import ServiceTypes.Proofs.Outcome
import ServiceTypes.Proofs.Refusal
import ServiceTypes.Proofs.Schema.Ambiguity
import ServiceTypes.Proofs.Schema.Contract
import ServiceTypes.Proofs.Schema.Equivariance
import ServiceTypes.Proofs.Schema.Evidence
import ServiceTypes.Proofs.Schema.Exchange
import ServiceTypes.Proofs.Schema.Independence
import ServiceTypes.Proofs.Schema.Insensitivity
import ServiceTypes.Proofs.Schema.Insertion
import ServiceTypes.Proofs.Schema.Lookalike
import ServiceTypes.Proofs.Schema.Naming
import ServiceTypes.Proofs.Schema.References
import ServiceTypes.Proofs.Schema.Sketch
import ServiceTypes.Proofs.Text.Radix
import ServiceTypes.Proofs.Text.Scan
import ServiceTypes.Proofs.Xml.Acceptance
import ServiceTypes.Proofs.Xml.Arrival
import ServiceTypes.Proofs.Xml.Assembly
import ServiceTypes.Proofs.Xml.Bare
import ServiceTypes.Proofs.Xml.CharacterData
import ServiceTypes.Proofs.Xml.Composition
import ServiceTypes.Proofs.Xml.Denotation
import ServiceTypes.Proofs.Xml.Edit
import ServiceTypes.Proofs.Xml.Entity
import ServiceTypes.Proofs.Xml.Intake
import ServiceTypes.Proofs.Xml.Keeping
import ServiceTypes.Proofs.Xml.Listing
import ServiceTypes.Proofs.Xml.Lockstep
import ServiceTypes.Proofs.Xml.Loop
import ServiceTypes.Proofs.Xml.Misreading
import ServiceTypes.Proofs.Xml.Paired
import ServiceTypes.Proofs.Xml.Passage
import ServiceTypes.Proofs.Xml.Placement
import ServiceTypes.Proofs.Xml.Progress
import ServiceTypes.Proofs.Xml.Reading
import ServiceTypes.Proofs.Xml.Resolution
import ServiceTypes.Proofs.Xml.Room
import ServiceTypes.Proofs.Xml.RoundTrip
import ServiceTypes.Proofs.Xml.Spelling
import ServiceTypes.Proofs.Xml.TagReading
import ServiceTypes.Proofs.Xml.Token
import ServiceTypes.Proofs.Xml.Truncation
import ServiceTypes.Proofs.Xml.Volume
import ServiceTypes.Proofs.Xml.Weight
import ServiceTypes.Proofs.Xml.Whole
import ServiceTypes.Schema.Definition
import ServiceTypes.Schema.Extraction
import ServiceTypes.Schema.QName
import ServiceTypes.Schema.Settings
import ServiceTypes.Schema.TypeRef
import ServiceTypes.Text.Blank
import ServiceTypes.Text.Bytes
import ServiceTypes.Text.CodePoints
import ServiceTypes.Text.Cut
import ServiceTypes.Text.Literal
import ServiceTypes.Text.Radix
import ServiceTypes.Text.Unprintable
import ServiceTypes.Version
import ServiceTypes.Xml.Attributes
import ServiceTypes.Xml.Builder
import ServiceTypes.Xml.Defect
import ServiceTypes.Xml.Event
import ServiceTypes.Xml.Markup
import ServiceTypes.Xml.Node
import ServiceTypes.Xml.Reader
import ServiceTypes.Xml.Reference
import ServiceTypes.Xml.Tag
