import IcoDashboard.Async.Program
import IcoDashboard.Async.Contract
import IcoDashboard.Async.Interleaving
import IcoDashboard.Data.Collection
import IcoDashboard.Platform
import IcoDashboard.Helpers
import IcoDashboard.Entities.Investor
import IcoDashboard.Entities.PaymentGateTransaction
import IcoDashboard.Entities.Transaction
import IcoDashboard.Gateway.Ipn
import IcoDashboard.Gateway.Payouts
import IcoDashboard.Accounts.Services
import IcoDashboard.Accounts.Clients
import IcoDashboard.Accounts.Kyc
import IcoDashboard.Accounts.Users
import IcoDashboard.Accounts.Dashboard
import IcoDashboard.Accounts.Requests
import IcoDashboard.Accounts.Guards
import IcoDashboard.Accounts.Contracts
import IcoDashboard.Accounts.Store
import IcoDashboard.Accounts.Verifications
import IcoDashboard.Accounts.Tokens
import IcoDashboard.Accounts.Signatures
import IcoDashboard.Accounts.Activation
import IcoDashboard.Accounts.Wallets
import IcoDashboard.Accounts.Saves
import IcoDashboard.Chain.Services
import IcoDashboard.Chain.TransactionService
import IcoDashboard.Chain.Web3Handler
import IcoDashboard.Chain.Contracts
import IcoDashboard.Chain.Handlings
import IcoDashboard.Chain.Restore
import IcoDashboard.Chain.Recording
import IcoDashboard.Chain.Pending
import IcoDashboard.Chain.Orders
import IcoDashboard.Chain.Statuses
import IcoDashboard.Chain.Cursor
import IcoDashboard.Chain.Repeats
import IcoDashboard.Chain.Races
import IcoDashboard.Chain.Sums
import IcoDashboard.Async.Evaluation
import IcoDashboard.Async.Rounds
import IcoDashboard.Accounts.KycStatuses
import IcoDashboard.Accounts.KycRuns
import IcoDashboard.Gateway.Notifications
import IcoDashboard.Gateway.Overlaps
import IcoDashboard.Accounts.AuthRecords
import IcoDashboard.Accounts.AuthScopes
import IcoDashboard.Accounts.Authentication
import IcoDashboard.Accounts.Methods
import IcoDashboard.Data.Windows
import IcoDashboard.Entities.Invitations
import IcoDashboard.Entities.InviteLimits
import IcoDashboard.Accounts.Invites
import IcoDashboard.Data.LeftJoin
import IcoDashboard.Accounts.ReferralIncome
import IcoDashboard.Accounts.Referrals
import IcoDashboard.Accounts.ReferralTree
import IcoDashboard.Accounts.Sessions
import IcoDashboard.Accounts.References
import IcoDashboard.Accounts.ReferenceRuns
import IcoDashboard.Accounts.CustomerIds
import IcoDashboard.Accounts.KycRoutes
import IcoDashboard.Accounts.CallbackRuns
import IcoDashboard.Accounts.Spellings
import IcoDashboard.Accounts.InviteMails
import IcoDashboard.Data.StableSort
import IcoDashboard.Gateway.History
import IcoDashboard.Accounts.Web3Client
import IcoDashboard.Accounts.WhitelistJob
import IcoDashboard.Accounts.CallbackErrors
import IcoDashboard.Accounts.StoredResults
import IcoDashboard.Accounts.ReferralCodes
import IcoDashboard.Data.Pattern
import IcoDashboard.Data.Histories
import IcoDashboard.Validation.Schemas
import IcoDashboard.Validation.Middleware
import IcoDashboard.Validation.Languages
import IcoDashboard.Validation.Passwords
import IcoDashboard.Chain.BlockBounds
import IcoDashboard.Async.Obligations
import IcoDashboard.Async.Observation
import IcoDashboard.Async.Likeness
import IcoDashboard.Async.Possibility
import IcoDashboard.Async.Stopping
import IcoDashboard.Async.Joint
import IcoDashboard.Accounts.CodedSaves
import IcoDashboard.Accounts.Columns
import IcoDashboard.Accounts.Identity
import IcoDashboard.Accounts.TokenLife
import IcoDashboard.Accounts.Guesses
import IcoDashboard.Accounts.Investments
import IcoDashboard.Accounts.WalletOwners
import IcoDashboard.Accounts.PasswordOwners
import IcoDashboard.Accounts.Whitelist
import IcoDashboard.Accounts.Activations
import IcoDashboard.Accounts.Refusals
import IcoDashboard.Accounts.Secrets
import IcoDashboard.Gateway.Records
import IcoDashboard.Chain.Origins
import IcoDashboard.Backend.Payments
import IcoDashboard.Backend.Transactions
import IcoDashboard.Backend.History
import IcoDashboard.Backend.Bodies
import IcoDashboard.Backend.Front
