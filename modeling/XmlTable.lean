import XmlTable.Listing
import XmlTable.Proofs.Children
import XmlTable.Proofs.Namespaces
import XmlTable.Proofs.Order
import XmlTable.Proofs.Partition
import XmlTable.Proofs.Reproduction
import XmlTable.Proofs.RoundTrip
import XmlTable.Proofs.Safety
import XmlTable.Proofs.Settlement
import XmlTable.Proofs.SiblingLinks
import XmlTable.Proofs.Storage
import XmlTable.Session
import XmlTable.Proofs.Course
import XmlTable.Proofs.Progress
import XmlTable.Proofs.Spending
import XmlTable.Proofs.Declaring
import XmlTable.Proofs.Collecting
import XmlTable.Proofs.Meaning
import XmlTable.Proofs.ListingRoundTrip
import XmlTable.Proofs.Permanence
import XmlTable.Proofs.WhiteSpace
import XmlTable.Proofs.NormalTexts
import XmlTable.Proofs.Filtering
import XmlTable.Proofs.Endings
import XmlTable.Proofs.Interruptions
import XmlTable.Proofs.Remnants
import XmlTable.Proofs.Provenance
import XmlTable.Proofs.Subtrees
import XmlTable.Proofs.Siblings
import XmlTable.Proofs.StringValues
import XmlTable.Proofs.Mirroring
import XmlTable.Proofs.Numerals
import XmlTable.Proofs.Substitution
import XmlTable.Proofs.Pieces
import XmlTable.Proofs.Cycles
import XmlTable.Proofs.Asides
import XmlTable.Proofs.Malformed
import XmlTable.Proofs.Precedence
import XmlTable.Proofs.Supplying
import XmlTable.Proofs.ContentModels
import XmlTable.Proofs.Offsets
import XmlTable.Proofs.Findings
import XmlTable.Proofs.Doctypes
import XmlTable.Proofs.Receivers
import XmlTable.Proofs.Instructions
import XmlTable.Proofs.Tabulation
import XmlTable.Proofs.Symbols
