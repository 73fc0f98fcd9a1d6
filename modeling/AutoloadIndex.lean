import AutoloadIndex.Main
import AutoloadIndex.Proofs.PathOrder
import AutoloadIndex.Proofs.Walk
import AutoloadIndex.Proofs.RegistryRun
import AutoloadIndex.Proofs.Additions
import AutoloadIndex.Proofs.IndexEquality
import AutoloadIndex.Proofs.ConflictFree
import AutoloadIndex.Proofs.Populate
import AutoloadIndex.Proofs.ParserExchange
import AutoloadIndex.Proofs.TreeScan
import AutoloadIndex.Proofs.DeclarationGrammar
import AutoloadIndex.Proofs.GrammarScan
import AutoloadIndex.Proofs.PieceLocality
import AutoloadIndex.Proofs.Blanking
import AutoloadIndex.Proofs.Layout
import AutoloadIndex.Proofs.Partition
import AutoloadIndex.Proofs.Headerless
import AutoloadIndex.Proofs.ScanTrace
import AutoloadIndex.Proofs.AliasAgreement
import AutoloadIndex.Proofs.ByteLexer
import AutoloadIndex.Proofs.ByteReading
import AutoloadIndex.Proofs.ByteStrings
import AutoloadIndex.Proofs.ByteExtents
import AutoloadIndex.Proofs.ByteRounds
import AutoloadIndex.Proofs.LexerSafety
import AutoloadIndex.Proofs.BraceBalance
import AutoloadIndex.Proofs.Lookahead
import AutoloadIndex.Proofs.ProgramEnd
import AutoloadIndex.Proofs.TagText
import AutoloadIndex.Proofs.TagExtents
import AutoloadIndex.Proofs.TagLowering
import AutoloadIndex.Proofs.ElementLowering
import AutoloadIndex.Proofs.LiteralsKept
import AutoloadIndex.Proofs.Decoding
import AutoloadIndex.Proofs.Restatement
import AutoloadIndex.Proofs.OpaqueBlocks
import AutoloadIndex.Proofs.InsertedBlanks
import AutoloadIndex.Proofs.ElementNames
import AutoloadIndex.Proofs.AngleGroups
import AutoloadIndex.Proofs.AngleBalance
import AutoloadIndex.Proofs.LoweredStatements
import AutoloadIndex.Proofs.HeaderGenerics
import AutoloadIndex.Proofs.ComparisonReport
import AutoloadIndex.Proofs.LeavingOut
import AutoloadIndex.Proofs.Clashes
import AutoloadIndex.Proofs.Refusal
import AutoloadIndex.Proofs.DefinedNames
import AutoloadIndex.Proofs.ScopeLookup
import AutoloadIndex.Proofs.Resolution
import AutoloadIndex.Proofs.RelativeNames
import AutoloadIndex.Proofs.HeredocLines
import AutoloadIndex.Proofs.LiftedAliases
import AutoloadIndex.Proofs.ProgramTree
import AutoloadIndex.Proofs.Agreement
