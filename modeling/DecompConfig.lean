import DecompConfig.Analysis.Json
import DecompConfig.CallingConvention
import DecompConfig.Config.Building
import DecompConfig.Config.Json
import DecompConfig.TypeTable.Builtin
import DecompConfig.TypeTable.Json
import DecompConfig.TypeTable.Listing
import DecompConfig.CommandLine.Arguments
import DecompConfig.CommandLine.Command
import DecompConfig.CommandLine.Help
import DecompConfig.CommandLine.Execution
import DecompConfig.Main
import DecompConfig.Proofs.Lowering.Halting
import DecompConfig.Proofs.TypeTable.Cycle
import DecompConfig.Proofs.Lowering.InPlace
import DecompConfig.Proofs.Encoding.Grammar
import DecompConfig.Proofs.Aggregate
import DecompConfig.Proofs.Lowering.Output
import DecompConfig.Proofs.Lowering.Session
import DecompConfig.Proofs.Lowering.Qualifier
import DecompConfig.Proofs.Lowering.MemberName
import DecompConfig.Proofs.TypeTable.Confinement
import DecompConfig.Proofs.Config.Function
import DecompConfig.Proofs.Config.Json
import DecompConfig.Proofs.Analysis.Json
import DecompConfig.Proofs.TypeTable.Listing
import DecompConfig.Proofs.TypeTable.History
import DecompConfig.Proofs.CommandLine.Action
import DecompConfig.Proofs.CommandLine.Failure
import DecompConfig.Proofs.CommandLine.Printing
import DecompConfig.Proofs.Token.Spacing
import DecompConfig.Proofs.Lowering.Concatenation
import DecompConfig.Proofs.Frame.Spelling
import DecompConfig.Proofs.Name
import DecompConfig.Proofs.Config.Globals
import DecompConfig.Proofs.CommandLine.Label
import DecompConfig.Proofs.TypeTable.Builtin
import DecompConfig.Proofs.CommandLine.Loading
import DecompConfig.Proofs.TypeTable.Json
import DecompConfig.Proofs.Frame.WordSize
import DecompConfig.Proofs.Lowering.MaximalMunch
