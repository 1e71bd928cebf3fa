import Papyrus.CommandLine
import Papyrus.Lexer.Link
import Papyrus.Lexer.Setting
import Papyrus.Main
import Papyrus.Proofs.BlockScan
import Papyrus.Proofs.LineOffset
import Papyrus.Proofs.Tiling
import Papyrus.Proofs.LineWrite
import Papyrus.Proofs.LineRun
import Papyrus.Proofs.RunStyle
import Papyrus.Proofs.Edit
import Papyrus.Proofs.Outline
import Papyrus.Proofs.Incremental
import Papyrus.Proofs.Declaration
import Papyrus.Proofs.PropertyStyle
import Papyrus.Proofs.Session
import Papyrus.Proofs.AsciiCase
import Papyrus.Proofs.CharacterModes
import Papyrus.Proofs.CaretWord
import Papyrus.Proofs.Nesting
import Papyrus.Proofs.KeywordToken
import Papyrus.Proofs.BranchWord
import Papyrus.Proofs.Redaction
import Papyrus.Proofs.CodeToken
import Papyrus.Proofs.RedactedLines
import Papyrus.Proofs.FoldRun
import Papyrus.Proofs.CodeSearch
import Papyrus.Proofs.CodeMatch
import Papyrus.Proofs.Noninterference
import Papyrus.Proofs.LowerCase
import Papyrus.Proofs.ClassCache
import Papyrus.Proofs.RecordEdit
import Papyrus.Proofs.DocumentToken
import Papyrus.Proofs.KeywordSearch
import Papyrus.Proofs.MatchSpan
import Papyrus.Proofs.RegisterSearch
import Papyrus.Proofs.Highlight
import Papyrus.Proofs.HighlightEdit
import Papyrus.Proofs.IncrementalFold
import Papyrus.Proofs.Refresh
import Papyrus.Proofs.Inquiry
import Papyrus.Proofs.Settling
import Papyrus.Proofs.FlatText
import Papyrus.Proofs.PrintedPosition
import Papyrus.Proofs.LetterCase
import Papyrus.Proofs.CaseBlind
import Papyrus.Proofs.Reconfiguration
import Papyrus.Proofs.MaximalMunch
import Papyrus.Proofs.StringEnd
import Papyrus.Proofs.QuotedText
import Papyrus.Proofs.WrittenValue
import Papyrus.Proofs.WrittenDocument
import Papyrus.Proofs.WrittenFile
import Papyrus.Proofs.SavedSettings
import Papyrus.Proofs.CapitalSigma
import Papyrus.Proofs.NearestHit
import Papyrus.Proofs.DeclarationEnd
import Papyrus.Proofs.ScriptSearch
import Papyrus.Proofs.ScriptName
import Papyrus.Proofs.ClassLink
import Papyrus.Proofs.WrittenLines
import Papyrus.Proofs.FirstDeclaration
import Papyrus.Proofs.CacheHistory
import Papyrus.Proofs.RegistryRun
import Papyrus.Proofs.FoldBalance
import Papyrus.Proofs.Terminal
import Papyrus.Proofs.ColourRun
import Papyrus.Proofs.StyleArray
import Papyrus.Proofs.StyledSearch
import Papyrus.Proofs.WordRange
