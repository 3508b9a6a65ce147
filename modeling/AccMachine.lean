import AccMachine.Console.Changes
import AccMachine.Directory
import AccMachine.Main
import AccMachine.Proofs.CachesInvisible
import AccMachine.Proofs.LastRefresh
import AccMachine.Proofs.HitHistory
import AccMachine.Proofs.MachineRequests
import AccMachine.Proofs.StackDiscipline
import AccMachine.Proofs.Redraw
import AccMachine.Proofs.ShapedMachine
import AccMachine.Proofs.MachineRuns
import AccMachine.Proofs.LoadForgets
import AccMachine.Proofs.StepBudget
import AccMachine.Proofs.RunLoop
import AccMachine.Proofs.WindowRuns
import AccMachine.Proofs.TextCuts
import AccMachine.Proofs.LabelAddresses
import AccMachine.Proofs.TwoPasses
import AccMachine.Proofs.Decoding
import AccMachine.Proofs.WrittenNumbers
import AccMachine.Proofs.AssemblyErrors
import AccMachine.Proofs.Listing
import AccMachine.Proofs.NextInstruction
import AccMachine.Proofs.HeadlessEnding
import AccMachine.Proofs.LiteralGrammar
import AccMachine.Proofs.FailedAssembly
import AccMachine.Proofs.StepEffect
import AccMachine.Proofs.Counters
import AccMachine.Proofs.CodeLines
import AccMachine.Proofs.Layout
import AccMachine.Proofs.TokenRuns
import AccMachine.Proofs.MarkedRows
import AccMachine.Proofs.ShownComments
import AccMachine.Proofs.EditorHistory
import AccMachine.Proofs.ShownWords
import AccMachine.Proofs.LineFrame
import AccMachine.Proofs.StepTrace
import AccMachine.Proofs.ChangedWords
import AccMachine.Proofs.Relabelling
