import PyAppRunner.ApiKeys.Abilities
import PyAppRunner.ApiKeys.Admin
import PyAppRunner.ApiKeys.Expiry
import PyAppRunner.Audit.History
import PyAppRunner.Audit.Prune
import PyAppRunner.Audit.Redaction
import PyAppRunner.Audit.Same
import PyAppRunner.Bridge.Encoders
import PyAppRunner.Bridge.FirstMessage
import PyAppRunner.Bridge.Identity
import PyAppRunner.Bridge.IssuedKey
import PyAppRunner.Bridge.Sessions
import PyAppRunner.Config.Order
import PyAppRunner.Cron.Overlap
import PyAppRunner.Cron.Schedule
import PyAppRunner.Cron.Shutdown
import PyAppRunner.Cron.Work
import PyAppRunner.Crypto.Base64Url
import PyAppRunner.Crypto.Classes
import PyAppRunner.Crypto.Envelope
import PyAppRunner.Crypto.RotateAlone
import PyAppRunner.Migrations.New
import PyAppRunner.Migrations.Service
import PyAppRunner.Migrations.Sessions
import PyAppRunner.Migrations.Split
import PyAppRunner.Migrations.Statements
import PyAppRunner.Migrations.Steps
import PyAppRunner.Migrations.Targets
import PyAppRunner.Queue.Budget
import PyAppRunner.Queue.ErrorText
import PyAppRunner.Queue.Install
import PyAppRunner.Queue.PgReserve
import PyAppRunner.Queue.PgRetry
import PyAppRunner.Queue.PgStats
import PyAppRunner.Queue.PgUnique
import PyAppRunner.Queue.RedisCounts
import PyAppRunner.Queue.RedisFence
import PyAppRunner.Queue.RedisReserve
import PyAppRunner.Queue.RedisUnique
import PyAppRunner.Queue.Worker
import PyAppRunner.Queue.WorkerLoop
import PyAppRunner.Requests.BodyLog
import PyAppRunner.Requests.Brackets
import PyAppRunner.Requests.ClientIp
import PyAppRunner.Requests.FormFields
import PyAppRunner.Requests.Guarded
import PyAppRunner.Requests.LiveObjects
import PyAppRunner.Requests.SmallValues
import PyAppRunner.Throttle.Check
import PyAppRunner.Throttle.Windows
import PyAppRunner.Timing.Reports
import PyAppRunner.Timing.TickService
import PyAppRunner.Wbcm.Delivery
import PyAppRunner.Wbcm.FanOut
import PyAppRunner.Wbcm.Routing
