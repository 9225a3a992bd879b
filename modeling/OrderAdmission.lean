import OrderAdmission.Config.Encode
import OrderAdmission.Engine.Journal
import OrderAdmission.Identifier
import OrderAdmission.Json.Writer
import OrderAdmission.Main
import OrderAdmission.MemInfo
import OrderAdmission.Store.Session
import OrderAdmission.Wire.Report
import OrderAdmission.Proofs.Stages
import OrderAdmission.Proofs.Turns
import OrderAdmission.Proofs.Courses
import OrderAdmission.Proofs.Floor
import OrderAdmission.Proofs.Sending
import OrderAdmission.Proofs.JobTurns
import OrderAdmission.Proofs.WellFormed
import OrderAdmission.Proofs.Balance
import OrderAdmission.Proofs.Progress
import OrderAdmission.Proofs.Permits
import OrderAdmission.Proofs.Booking
import OrderAdmission.Proofs.Reports
import OrderAdmission.Proofs.Telling
import OrderAdmission.Proofs.Outcomes
import OrderAdmission.Proofs.Retrying
import OrderAdmission.Proofs.Tables
import OrderAdmission.Proofs.Writing
import OrderAdmission.Proofs.Recording
import OrderAdmission.Proofs.Routes
import OrderAdmission.Proofs.Custody
import OrderAdmission.Proofs.Serial
import OrderAdmission.Proofs.Atomicity
import OrderAdmission.Proofs.Tallies
import OrderAdmission.Proofs.Feedback
import OrderAdmission.Proofs.Acknowledgements
import OrderAdmission.Proofs.Circuit
import OrderAdmission.Proofs.BulkCalls
import OrderAdmission.Proofs.Fallback
import OrderAdmission.Proofs.Admission
import OrderAdmission.Proofs.Debounce
import OrderAdmission.Proofs.Accounting
import OrderAdmission.Proofs.Tripping
import OrderAdmission.Proofs.FirstBatch
import OrderAdmission.Proofs.Repairs
import OrderAdmission.Proofs.InnerChecks
import OrderAdmission.Proofs.Versions
import OrderAdmission.Proofs.Transcripts
import OrderAdmission.Proofs.Conversation
import OrderAdmission.Proofs.CallTimes
import OrderAdmission.Proofs.RetryHint
import OrderAdmission.Proofs.Verdicts
import OrderAdmission.Proofs.Backoff
import OrderAdmission.Proofs.Polling
import OrderAdmission.Proofs.Fairness
import OrderAdmission.Proofs.Executions
import OrderAdmission.Proofs.Blocks
import OrderAdmission.Proofs.PlainRuns
import OrderAdmission.Proofs.LongBudgets
import OrderAdmission.Proofs.LongTimeouts
import OrderAdmission.Proofs.Deadlines
import OrderAdmission.Proofs.LargestVersions
import OrderAdmission.Proofs.Unreadable
import OrderAdmission.Proofs.Spellings
import OrderAdmission.Proofs.UpdateForms
import OrderAdmission.Proofs.SampleIds
import OrderAdmission.Proofs.FailureCount
import OrderAdmission.Proofs.Numbering
import OrderAdmission.Proofs.LinesAndWords
import OrderAdmission.Proofs.MemoryReports
