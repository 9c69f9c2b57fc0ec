import Unkey.UsageLimiter.Conservation
import Unkey.Frontline.Certificates
import Unkey.Vault.Fleet
import Unkey.Deploy.Takeover
import Unkey.Deploy.LivePointer
import Unkey.Analytics.AllowList
import Unkey.AuditExport.ExactlyOnce
import Unkey.Readiness.Wakeup
import Unkey.Standby.Demotion
import Unkey.Standby.Guard
import Unkey.CustomDomain.Contention
import Unkey.Dedup.Newest
import Unkey.Dedup.Committed
import Unkey.Dedup.Final
import Unkey.Approval.Authorize
import Unkey.Krane.Skipped
import Unkey.Krane.Dispatch
import Unkey.Ratelimit.Admission
import Unkey.Ratelimit.Rollback
import Unkey.Rbac.Requirement
import Unkey.BuildSlot.Capacity
import Unkey.BuildSlot.Wakeups
import Unkey.CircuitBreaker.Probes
import Unkey.Cache.Deadlock
import Unkey.Teardown.Restore
import Unkey.Ratelimit.RedisKey
import Unkey.Ratelimit.Overflow
import Unkey.DeployBilling.Shards
import Unkey.Keys.Reroll
import Unkey.Keys.Staleness
import Unkey.Keys.Migrate
import Unkey.Keys.ReplaceLimits
import Unkey.Batch.Processor
import Unkey.LegacyBilling.Tiers
import Unkey.Deploy.EnvFile
import Unkey.SpendCheck.Enforcement
import Unkey.UsageLimiter.Fallback
import Unkey.Cache.Snapshot
import Unkey.Rbac.Coverage
import Unkey.Ratelimit.Janitor
import Unkey.Match.Wildcard
import Unkey.Analytics.Limits
import Unkey.Analytics.Retention
import Unkey.LastUsed.Partition
import Unkey.Deploy.Hostnames
import Unkey.Frontline.ClientAddress
import Unkey.Frontline.Identifier
import Unkey.Frontline.Metering
import Unkey.Frontline.RequestLog
import Unkey.Teardown.Overtake
import Unkey.Krane.Reports
import Unkey.PolicyConfig.RoundTrip
import Unkey.GithubStatus.Comment
import Unkey.Heimdall.Attach
import Unkey.Timing.Entry
