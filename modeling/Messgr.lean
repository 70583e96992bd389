import Messgr.Customer.RaceFree
import Messgr.Dispatcher.ColdStart
import Messgr.Dispatcher.Discards
import Messgr.Dispatcher.DrainBound
import Messgr.Dispatcher.Leases
import Messgr.Dispatcher.Ramp
import Messgr.Dispatcher.Recancel
import Messgr.Dispatcher.Retries
import Messgr.Dispatcher.Standby
import Messgr.Ingest.Ciphertexts
import Messgr.Ingest.Idempotence
import Messgr.KillSwitch.Deltas
import Messgr.Otp.Provider
import Messgr.Partition.Coverage
import Messgr.Producer.Convergence
import Messgr.Producer.Disabled
import Messgr.Query.AccessAudit
import Messgr.Quota.Dashboard
import Messgr.Quota.Overrides
import Messgr.Quota.Restart
import Messgr.Receipts.Reports
import Messgr.Receipts.Status
import Messgr.SmsSender.Idempotence
import Messgr.Template.SinglePass
import Messgr.Tenant.Credential
import Messgr.Tenant.Pepper
import Messgr.Tenant.Status
import Messgr.Webhook.Verify
