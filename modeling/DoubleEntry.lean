import DoubleEntry.Blank
import DoubleEntry.Logging
import DoubleEntry.Main
import DoubleEntry.Scenario.Command
import DoubleEntry.Sql.Request
import DoubleEntry.Proofs.AllOrNothing
import DoubleEntry.Proofs.Attempts
import DoubleEntry.Proofs.AuditTrail
import DoubleEntry.Proofs.OneDeadline
import DoubleEntry.Proofs.Balance
import DoubleEntry.Proofs.Census
import DoubleEntry.Proofs.Currencies
import DoubleEntry.Proofs.Deadlock
import DoubleEntry.Proofs.Disclosure
import DoubleEntry.Proofs.DriverErrors
import DoubleEntry.Proofs.Frames
import DoubleEntry.Proofs.LostUpdates
import DoubleEntry.Proofs.Obstacles
import DoubleEntry.Proofs.Protocol
import DoubleEntry.Proofs.Resubmission
import DoubleEntry.Proofs.Scenarios
import DoubleEntry.Proofs.Schedules
import DoubleEntry.Proofs.Serial
import DoubleEntry.Proofs.StoresAgree
import DoubleEntry.Proofs.Validations
import DoubleEntry.Proofs.Seclusion
import DoubleEntry.Proofs.JsonForms
import DoubleEntry.Proofs.Totals
import DoubleEntry.Proofs.Ownership
