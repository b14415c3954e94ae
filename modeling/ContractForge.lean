import ContractForge.Declaration.Writing
import ContractForge.Main
import ContractForge.Proofs.Generation.Implementations
import ContractForge.Proofs.Generation.Outcome
import ContractForge.Proofs.Generation.OutputRoot
import ContractForge.Proofs.Generation.Written
import ContractForge.Proofs.Message.Listing
import ContractForge.Proofs.Message.Meaning
import ContractForge.Proofs.Resource.ClassNames
import ContractForge.Proofs.Resource.RoundTrip
import ContractForge.Proofs.Service.CallReading
import ContractForge.Proofs.Resource.Uncached
import ContractForge.Proofs.Service.Validation
import ContractForge.Proofs.Resource.Once
import ContractForge.Proofs.Files.Beside
import ContractForge.Proofs.Message.Bundles
import ContractForge.Proofs.Generation.Modularity
import ContractForge.Proofs.Message.AsciiListing
import ContractForge.Proofs.Files.NewFile
import ContractForge.Proofs.Generation.ImplementationNames
import ContractForge.Proofs.Message.Sharing
import ContractForge.Proofs.Generation.Together
import ContractForge.Proofs.CommandLine.Arguments
import ContractForge.Proofs.Generation.Rehearsal
import ContractForge.Proofs.CommandLine.DryRun
import ContractForge.Proofs.Generation.Rewriting
import ContractForge.Proofs.Files.Descent
import ContractForge.Proofs.Files.WellFormed
import ContractForge.Proofs.Generation.Rereading
import ContractForge.Proofs.Files.Present
import ContractForge.Proofs.Generation.Regeneration
import ContractForge.Proofs.Java.Identifier
import ContractForge.Proofs.Generation.LegalNames
import ContractForge.Proofs.Java.Scope
import ContractForge.Proofs.Service.Members
import ContractForge.Proofs.Resource.AccessorDraft
import ContractForge.Proofs.Service.ProxyDraft
import ContractForge.Proofs.Generation.Capture
import ContractForge.Proofs.Files.Normalization
import ContractForge.Proofs.Files.Search
import ContractForge.Proofs.Java.TwoPhases
import ContractForge.Proofs.Json.Records
import ContractForge.Proofs.Json.Spelling
import ContractForge.Proofs.Declaration.RoundTrip
import ContractForge.Proofs.Service.Flattening
import ContractForge.Proofs.Message.Joining
import ContractForge.Proofs.Message.UnicodeEscapes
import ContractForge.Proofs.Generation.Filling
import ContractForge.Proofs.Generation.Groups
import ContractForge.Proofs.Declaration.TypeReading
import ContractForge.Proofs.Files.Relisting
import ContractForge.Proofs.Message.ListingOrder
import ContractForge.Proofs.Java.Structure
import ContractForge.Proofs.Declaration.Validity
