import Mocha.Lib.Endian
import Mocha.Lib.Schedule
import Mocha.Lib.ScheduleInvariant
import Mocha.Lib.ScheduleResult
import Mocha.Lib.ScheduleProgress
import Mocha.Lib.ScheduleLength
import Mocha.Lib.ScheduleOutcome
import Mocha.Lib.Descent
import Mocha.Lib.Packed
import Mocha.Lib.Paging
import Mocha.Helpers.Data
import Mocha.Helpers.DataShifter
import Mocha.Helpers.Text
import Mocha.Helpers.Layout
import Mocha.Helpers.InterpreterUtils
import Mocha.Models.Translations
import Mocha.LoadCommand.Types
import Mocha.LoadCommand.Segment
import Mocha.LoadCommand.Fixed
import Mocha.LoadCommand.LoadCommand
import Mocha.LoadCommand.Ranges
import Mocha.LoadCommand.Encoding
import Mocha.LoadCommand.Strings
import Mocha.LoadCommand.Lines
import Mocha.Components.OperationCode
import Mocha.Components.OpcodeGrammar
import Mocha.Components.CString
import Mocha.Components.ModelBased
import Mocha.Components.FunctionStarts
import Mocha.Components.Pointer
import Mocha.Components.Relocation
import Mocha.Components.ExportInfo
import Mocha.Components.SwiftMetadata
import Mocha.Components.UString
import Mocha.Components.CStringPieces
import Mocha.Components.SignedOperands
import Mocha.Components.ExportNode
import Mocha.Components.ExportWalk
import Mocha.Components.ExportEncoding
import Mocha.Components.ExportNames
import Mocha.Components.ExportFormat
import Mocha.Components.SwiftTargets
import Mocha.Components.SymbolIndex
import Mocha.Components.RelocatedSections
import Mocha.Components.LEBReaders
import Mocha.Components.InstructionBank
import Mocha.Components.Instructions
import Mocha.Components.Capstone
import Mocha.Components.Returns
import Mocha.Macho.Header
import Mocha.Macho.Component
import Mocha.Macho.Macho
import Mocha.Macho.Slices
import Mocha.Macho.Ranges
import Mocha.Macho.Scheduler
import Mocha.Macho.Completion
import Mocha.Macho.Reads
import Mocha.Macho.Resolution
import Mocha.Macho.Literals
import Mocha.Macho.ExportRoutes
import Mocha.Macho.Sections
import Mocha.Macho.Acceptance
import Mocha.Macho.Loading
import Mocha.Macho.WrittenSymbols
import Mocha.Document.MachoMetaData
import Mocha.Document.MochaDocument
import Mocha.Document.Opening
import Mocha.Document.Termination
import Mocha.Document.Rejection
import Mocha.Document.Leaves
import Mocha.Document.Encoding
import Mocha.Document.Fillers
import Mocha.View.MainView
import Mocha.View.Documents
import Mocha.View.Rows
import Mocha.View.MachoView
import Mocha.View.Browsing
