import SymbolIndex.Collector.Visit
import SymbolIndex.Command.Run
import SymbolIndex.Database.Export
import SymbolIndex.Frontend.Library
import SymbolIndex.Main
import SymbolIndex.Scan
import SymbolIndex.Proofs.Lists
import SymbolIndex.Proofs.Effect
import SymbolIndex.Proofs.Scoping
import SymbolIndex.Proofs.Digest
import SymbolIndex.Proofs.Passage
import SymbolIndex.Proofs.Run
import SymbolIndex.Proofs.MemberOrigin
import SymbolIndex.Proofs.SplitJoin
import SymbolIndex.Proofs.Layers
import SymbolIndex.Proofs.ScopePath
import SymbolIndex.Proofs.AliasChain
import SymbolIndex.Proofs.Growth
import SymbolIndex.Proofs.Resting
import SymbolIndex.Proofs.Repetition
import SymbolIndex.Proofs.Reparse
import SymbolIndex.Proofs.AppendOnly
import SymbolIndex.Proofs.Ledger
import SymbolIndex.Proofs.Coherence
import SymbolIndex.Proofs.Guesses
import SymbolIndex.Proofs.Keywords
import SymbolIndex.Proofs.TypeUse
import SymbolIndex.Proofs.Overloads
import SymbolIndex.Proofs.BrokenTypes
import SymbolIndex.Proofs.OutsideRoots
import SymbolIndex.Proofs.FirstFailure
import SymbolIndex.Proofs.Situations
import SymbolIndex.Proofs.EnclosingScope
import SymbolIndex.Proofs.Roster
import SymbolIndex.Proofs.Uniqueness
import SymbolIndex.Proofs.ClassOrigin
import SymbolIndex.Proofs.AccessInForce
import SymbolIndex.Proofs.MemberVisibility
import SymbolIndex.Proofs.HiddenClasses
import SymbolIndex.Proofs.KnownBases
import SymbolIndex.Proofs.JsonGrammar
import SymbolIndex.Proofs.JsonText
import SymbolIndex.Proofs.Traversal
import SymbolIndex.Proofs.EnumConstants
import SymbolIndex.Proofs.SignatureTables
import SymbolIndex.Proofs.OpenTemplates
import SymbolIndex.Proofs.TemplateParameters
import SymbolIndex.Proofs.StableResolution
import SymbolIndex.Proofs.ScopeSearches
import SymbolIndex.Proofs.WrittenBases
import SymbolIndex.Proofs.TemplateDefaults
import SymbolIndex.Proofs.Preorder
import SymbolIndex.Proofs.MethodEquality
import SymbolIndex.Proofs.PathComponents
import SymbolIndex.Proofs.RootContainment
import SymbolIndex.Proofs.Spacing
import SymbolIndex.Proofs.TypeReading
import SymbolIndex.Proofs.DirectoryTree
import SymbolIndex.Proofs.HeaderDiscovery
import SymbolIndex.Proofs.LibraryOrder
import SymbolIndex.Proofs.KeywordRemoval
