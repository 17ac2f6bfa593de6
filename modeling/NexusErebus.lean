import NexusErebus.Accounts
import NexusErebus.Api
import NexusErebus.ApiKeys
import NexusErebus.Asked
import NexusErebus.Async.Calls
import NexusErebus.Async.Duties
import NexusErebus.Async.Fifo
import NexusErebus.Async.InStep
import NexusErebus.Async.Issued
import NexusErebus.Async.Observed
import NexusErebus.Async.Pool
import NexusErebus.Async.Prog
import NexusErebus.Async.Rely
import NexusErebus.Async.Stages
import NexusErebus.Async.Startup
import NexusErebus.Async.WriteBehind
import NexusErebus.Balances
import NexusErebus.Boot
import NexusErebus.Buttons
import NexusErebus.Caching
import NexusErebus.Chain
import NexusErebus.Commands
import NexusErebus.Confirms
import NexusErebus.Conversations
import NexusErebus.Crypto.Gcm
import NexusErebus.Csrf
import NexusErebus.Data.Arrays
import NexusErebus.Data.Assoc
import NexusErebus.Data.Objects
import NexusErebus.Data.Redis
import NexusErebus.Db
import NexusErebus.Deposits
import NexusErebus.Env
import NexusErebus.Firewall
import NexusErebus.Footprint
import NexusErebus.FuelSplit
import NexusErebus.Health
import NexusErebus.Hydration
import NexusErebus.LaunchAmounts
import NexusErebus.LaunchAnswers
import NexusErebus.Launcher
import NexusErebus.LauncherRuns
import NexusErebus.LauncherServer
import NexusErebus.Launches
import NexusErebus.Listed
import NexusErebus.LostUpdates
import NexusErebus.ManualLaunches
import NexusErebus.Memories
import NexusErebus.Memory
import NexusErebus.Notices
import NexusErebus.Orders
import NexusErebus.Persistence
import NexusErebus.Portfolios
import NexusErebus.Previews
import NexusErebus.Records
import NexusErebus.Refusals
import NexusErebus.Reports
import NexusErebus.Retry
import NexusErebus.RetryCalls
import NexusErebus.Runtime
import NexusErebus.Sample
import NexusErebus.ScrubObjects
import NexusErebus.Scrubbing
import NexusErebus.SealedWallets
import NexusErebus.Sessions
import NexusErebus.SettingTexts
import NexusErebus.Settings
import NexusErebus.Settlement
import NexusErebus.Shields
import NexusErebus.Solana
import NexusErebus.System
import NexusErebus.Telegram
import NexusErebus.Text.Buffer
import NexusErebus.Text.Decimal
import NexusErebus.Text.Double
import NexusErebus.Text.Fixed
import NexusErebus.Text.Json
import NexusErebus.Text.JsonMap
import NexusErebus.Text.JsonSyntax
import NexusErebus.Text.Number
import NexusErebus.Text.Numeral
import NexusErebus.Text.Regex
import NexusErebus.Text.Strings
import NexusErebus.Token
import NexusErebus.TokenTransfers
import NexusErebus.TokenViews
import NexusErebus.Trades
import NexusErebus.TwoLaunchers
import NexusErebus.UserStore
import NexusErebus.Wallets
import NexusErebus.Watchers
import NexusErebus.Workers
