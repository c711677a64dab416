import MonkeyLang.Main
import MonkeyLang.Proofs.GrammarOrder
import MonkeyLang.Proofs.Derivation
import MonkeyLang.Proofs.Reading
import MonkeyLang.Proofs.ReadingSound
import MonkeyLang.Proofs.ReadingComplete
import MonkeyLang.Proofs.ErrorPropagation
import MonkeyLang.Proofs.ParseExact
import MonkeyLang.Proofs.FrameEffect
import MonkeyLang.Proofs.CutReading
import MonkeyLang.Proofs.TwinTrials
import MonkeyLang.Proofs.CallDepth
import MonkeyLang.Proofs.ContinuedScan
import MonkeyLang.Proofs.FirstError
import MonkeyLang.Proofs.Completion
import MonkeyLang.Proofs.ViablePrefix
import MonkeyLang.Proofs.OpenString
import MonkeyLang.Proofs.Seam
import MonkeyLang.Proofs.MovedReading
import MonkeyLang.Proofs.MovedScan
import MonkeyLang.Proofs.Joint
import MonkeyLang.Proofs.LocalRecovery
import MonkeyLang.Proofs.Respelling
import MonkeyLang.Proofs.RenderedReading
import MonkeyLang.Proofs.LikeValues
import MonkeyLang.Proofs.TreeCopy
import MonkeyLang.Proofs.LikeTrials
import MonkeyLang.Proofs.EntryPoints
import MonkeyLang.Proofs.Exits
import MonkeyLang.Proofs.Watching
import MonkeyLang.Proofs.ReturnExits
import MonkeyLang.Proofs.LevelRuns
import MonkeyLang.Proofs.NoStoredErrors
import MonkeyLang.Proofs.Places
import MonkeyLang.Proofs.Registering
import MonkeyLang.Proofs.Dialogue
import MonkeyLang.Proofs.Units
import MonkeyLang.Proofs.Gaps
import MonkeyLang.Proofs.Tiling
import MonkeyLang.Proofs.WrittenTokens
import MonkeyLang.Proofs.KeyedWrites
import MonkeyLang.Proofs.Lines
import MonkeyLang.Proofs.Numerals
import MonkeyLang.Proofs.Carets
import MonkeyLang.Proofs.PrintedData
import MonkeyLang.Proofs.WrappedArithmetic
import MonkeyLang.Proofs.ExactDepth
import MonkeyLang.Proofs.DescendingBlame
import MonkeyLang.Proofs.ErrorOrder
import MonkeyLang.Proofs.JoinedErrors
import MonkeyLang.Proofs.SetUp
import MonkeyLang.Proofs.FrameGraph
import MonkeyLang.Proofs.RootedFrames
import MonkeyLang.Proofs.OneLine
import MonkeyLang.Proofs.Imprint
import MonkeyLang.Proofs.ProgramTails
import MonkeyLang.Proofs.HistoryLine
import MonkeyLang.Proofs.LineByLine
import MonkeyLang.Proofs.Walk
import MonkeyLang.Proofs.Retracing
import MonkeyLang.Proofs.Progress
import MonkeyLang.Proofs.Hashes
import MonkeyLang.Proofs.Paths
