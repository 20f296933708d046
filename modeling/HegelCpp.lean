import HegelCpp.Logic.Program
import HegelCpp.Logic.Transition
import HegelCpp.Logic.Monitor
import HegelCpp.Logic.Segments
import HegelCpp.Logic.RoundBarrier
import HegelCpp.Logic.StableSort
import HegelCpp.Logic.LastWrite
import HegelCpp.Logic.Ghost
import HegelCpp.Logic.Decoder
import HegelCpp.Logic.Separated
import HegelCpp.Logic.FirstOccurrences
import HegelCpp.Logic.LittleEndian
import HegelCpp.Logic.NumberedNames
import HegelCpp.Exception
import HegelCpp.Engine.World
import HegelCpp.Engine.Calls
import HegelCpp.Generators.Combinators
import HegelCpp.Stateful.Runner
import HegelCpp.Stateful.Overlooks
import HegelCpp.Client.Code
import HegelCpp.Client.Respected
import HegelCpp.Client.Effect
import HegelCpp.Client.RunEffect
import HegelCpp.Client.Spans
import HegelCpp.Client.Protocol
import HegelCpp.Generators.Observed
import HegelCpp.Generators.Balanced
import HegelCpp.Generators.Collections
import HegelCpp.Generators.Integers
import HegelCpp.Stateful.Soundness
import HegelCpp.Client.Soundness
import HegelCpp.Stateful.StateLines
import HegelCpp.Client.StateLines
import HegelCpp.Report.Output
import HegelCpp.Report.Notes
import HegelCpp.Report.Layout
import HegelCpp.Report.Grouping
import HegelCpp.Report.RunBody
import HegelCpp.Report.Origins
import HegelCpp.Report.Attribution
import HegelCpp.Concurrent.Model
import HegelCpp.Concurrent.Effects
import HegelCpp.Concurrent.Barrier
import HegelCpp.Concurrent.Rounds
import HegelCpp.Concurrent.Ending
import HegelCpp.Concurrent.Progress
import HegelCpp.Concurrent.Leaving
import HegelCpp.Concurrent.Outcome
import HegelCpp.Concurrent.Output
import HegelCpp.Concurrent.Soundness
import HegelCpp.Repr.Types
import HegelCpp.Repr.Render
import HegelCpp.Repr.Decode
import HegelCpp.Repr.Literals
import HegelCpp.Repr.Strings
import HegelCpp.Report.GTest
import HegelCpp.Report.Positions
import HegelCpp.Report.DrawNames
import HegelCpp.Report.DrawLog
import HegelCpp.Client.Threads
import HegelCpp.Client.Refusals
import HegelCpp.Concurrent.Pool
import HegelCpp.Stateful.Pool
import HegelCpp.Run.Session
import HegelCpp.Run.Handles
import HegelCpp.Run.Verdict
import HegelCpp.Report.WorkerFailure
import HegelCpp.Generators.Builds
import HegelCpp.Run.DatabaseKey
import HegelCpp.Run.Report
import HegelCpp.Run.Printed
import HegelCpp.Run.FailureReport
import HegelCpp.Run.Soundness
import HegelCpp.Logic.Flags
import HegelCpp.Run.Settings
import HegelCpp.Run.Reproduce
import HegelCpp.Logic.Language
import HegelCpp.Logic.Budget
import HegelCpp.Logic.Approximation
import HegelCpp.Client.Approximation
import HegelCpp.Client.Recursion
import HegelCpp.Logic.Halting
import HegelCpp.Client.Halting
import HegelCpp.Values.Words
import HegelCpp.Logic.FixedWidth
import HegelCpp.Logic.Calendar
import HegelCpp.Generators.Datetimes
import HegelCpp.Logic.DenseNumbering
import HegelCpp.Concurrent.Groups
import HegelCpp.Concurrent.Schedules
import HegelCpp.Values.Readers
import HegelCpp.Values.Denotation
import HegelCpp.Values.Meaning
import HegelCpp.Values.Derived
import HegelCpp.Values.Override
import HegelCpp.Generators.Texts
import HegelCpp.Logic.Hexadecimal
import HegelCpp.Generators.Uuids
import HegelCpp.Logic.Projection
import HegelCpp.Report.Transparency
import HegelCpp.Report.ReadBack
import HegelCpp.Run.Counterexample
import HegelCpp.Client.Transcript
