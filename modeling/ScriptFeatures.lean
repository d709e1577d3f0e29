import ScriptFeatures.Main
import ScriptFeatures.Verbosity
import ScriptFeatures.Parser.Script
import ScriptFeatures.Proofs.Growth.Calls
import ScriptFeatures.Proofs.Growth.Turns
import ScriptFeatures.Proofs.Phrase.Reading
import ScriptFeatures.Proofs.Phrase.Composition
import ScriptFeatures.Proofs.Phrase.Incidental
import ScriptFeatures.Proofs.Phrase.Comments
import ScriptFeatures.Proofs.Phrase.Failure
import ScriptFeatures.Proofs.Feature.Occurrences
import ScriptFeatures.Proofs.Feature.Integers
import ScriptFeatures.Proofs.Parser.Documents
import ScriptFeatures.Proofs.Parser.Delimiter
import ScriptFeatures.Proofs.Parser.Cutting
import ScriptFeatures.Proofs.Parser.Outcome
import ScriptFeatures.Proofs.Parser.Target
import ScriptFeatures.Proofs.Parser.Command
import ScriptFeatures.Proofs.Store.Snapshot
import ScriptFeatures.Proofs.Store.Sessions
import ScriptFeatures.Proofs.Report.Table
import ScriptFeatures.Proofs.Report.Documents
import ScriptFeatures.Proofs.Corpus.Interleaving
import ScriptFeatures.Proofs.Corpus.Preselection
import ScriptFeatures.Proofs.Descriptor.Extension
import ScriptFeatures.Proofs.Descriptor.Written
